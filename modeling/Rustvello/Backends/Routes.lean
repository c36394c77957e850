import Rustvello.Redis.Operations
import Rustvello.Sqlite.Changes
import Rustvello.Sqlite.Runtime

/-!
# The routes that a publication accepts

`SqlitePublication` checks a route with a predicate of its own: the queue name is not empty
and the priority is finite.  Brokers, and the publication on Redis, check it with
`validate_routing`, and so does the retrieval from SQLite.

* `Commits` — a transaction that queues an invocation under a route;
* `Foremost` — the oldest entry of highest priority that a retrieval can see;
* `Delivered` — an entry queued under the route can be retrieved from its queue;
* `AcceptedAlike` — the route is accepted by every backend or by none;
* `delivered_iff`, `acceptedAlike_iff` — for which routes these hold;
* `routes_in_order_iff` — for which routes both do.
-/

namespace Rustvello.Backends

open Proto Rustvello.Core

/-! ## What is compared -/

/-- A submission, or a change that queues the invocation again, commits with this route. -/
inductive Commits (env : Env) (route : PublicationRoute) (db : Sqlite.Database) :
    InvocationId → Sqlite.Database → Prop where
  | submit {s : SubmissionPublication} {db' : Sqlite.Database} (hroute : s.route = route)
      (hbody : Sqlite.submitBody env s db = .ok (some db')) :
      Commits env route db s.invocation.invocationId db'
  | change {id : InvocationId} {runner : RunnerId} {change : PublicationChange}
      {autoPurge : Bool} {record : InvocationStatusRecord} {db' : Sqlite.Database}
      (hroute : routeOf change = some route)
      (hbody : Sqlite.changeBody env id runner change autoPurge db = .ok (some (record, db'))) :
      Commits env route db id db'

/-- The entry is in the queue, matches the filters, nobody holds a lease on it and its
invocation waits to be taken; what was queued before it has a lower priority, and what was
queued after it no higher one. -/
structure Foremost (db : Sqlite.Database) (now : Int) (queue : String) (task : Option TaskId)
    (language : Option TaskLanguage) (row : Sqlite.QueueRow) : Prop where
  named : row.queueName = queue
  task : ∀ t ∈ task, row.taskId = some t
  language : ∀ l ∈ language, Sqlite.Database.forLanguage l row = true
  free : db.leaseIsFree now row = true
  waiting : db.isObsolete row = false
  first : ∃ older newer, db.brokerQueue = older ++ row :: newer ∧
    (∀ other ∈ older, other.queueName = queue →
      row.priority.numericLe other.priority = false) ∧
    ∀ other ∈ newer, other.queueName = queue → other.priority.numericLe row.priority = true

/-- An invocation that was queued under the route has an entry there, and whenever this entry
is the foremost one, a retrieval from the queue returns it. -/
def Delivered (route : PublicationRoute) : Prop :=
  ∀ env db id db', Commits env route db id db' →
    (∃ row ∈ db'.brokerQueue, row.invocationId = id ∧ row.queueName = route.queue ∧
      row.priority = route.priority ∧ db'.isObsolete row = false) ∧
    ∀ (later : Sqlite.Database) (env' : Env) (leaseMs : Nat) (task : Option TaskId)
      (language : Option TaskLanguage),
      (∃ found, (later.reserve env' leaseMs route.queue task language).1 = .ok found) ∧
      ∀ row, row.invocationId = id →
        Foremost later (timestampMillis env'.clock) route.queue task language row →
        (later.reserve env' leaseMs route.queue task language).1 = .ok (some id)

/-- The publication on SQLite accepts the route where the brokers do, and, within the length
that Redis allows, where the publication on Redis does.  Of the brokers only two are named; the
others, and the publication on Postgres, begin with the same `validate_routing`. -/
structure AcceptedAlike (route : PublicationRoute) : Prop where
  mem : ∀ (broker : Mem.MemBroker) (id : InvocationId) (taskId : Option TaskId),
    Sqlite.validateRoute route = .ok () ↔
      (broker.routeInvocationWithOptions id taskId route.queue route.priority).1 = .ok ()
  sqlite : ∀ (db : Sqlite.Database) (id : InvocationId) (taskId : Option TaskId),
    Sqlite.validateRoute route = .ok () ↔
      (db.routeInvocationWithOptions id taskId route.queue route.priority).1 = .ok ()
  redis : route.queue.utf8ByteSize ≤ 256 →
    (Sqlite.validateRoute route = .ok () ↔
      ∃ valid, Redis.validateRoute route = .ok valid)

/-! ## The entry of a committed transaction -/

section Entries

variable {env : Env} {db db' : Sqlite.Database} {id : InvocationId} {route : PublicationRoute}
  {change : PublicationChange} {taskId : TaskId}

/-- The invocation has an entry under the route. -/
def QueuedUnder (db : Sqlite.Database) (id : InvocationId) (route : PublicationRoute) : Prop :=
  ∃ row ∈ db.brokerQueue, row.invocationId = id ∧ row.queueName = route.queue ∧
    row.priority = route.priority

theorem queuedUnder_publish (h : Sqlite.publish db id taskId route = .ok db') :
    QueuedUnder db' id route := by
  obtain ⟨_, -, h⟩ := bind_eq_ok.mp h
  cases h
  exact ⟨_, List.mem_append_right _ (List.mem_singleton_self _), rfl, rfl, rfl⟩

/-- Hiding a delivery keeps its entry. -/
theorem deferDelivery_brokerQueue (env : Env) (db : Sqlite.Database) (id : InvocationId)
    (change : PublicationChange) :
    (Sqlite.deferDelivery env db id change).brokerQueue = db.brokerQueue := by
  have hfold : ∀ (rows : List Sqlite.QueueRow) (end' : Int) (db : Sqlite.Database),
      (rows.foldl (fun db row => db.lease row.id end') db).brokerQueue = db.brokerQueue := by
    intro rows end'
    induction rows with
    | nil => exact fun _ => rfl
    | cons row rest ih =>
        intro db
        rw [List.foldl_cons, ih]
        rfl
  unfold Sqlite.deferDelivery
  split
  · exact hfold _ _ _
  · rfl

theorem queuedUnder_writeRoute (hroute : routeOf change = some route)
    (h : Sqlite.writeRoute env db id change = .ok db') : QueuedUnder db' id route := by
  unfold Sqlite.writeRoute at h
  rw [hroute] at h
  dsimp only at h
  split at h
  · cases h
  · obtain ⟨published, hpublish, h⟩ := bind_eq_ok.mp h
    obtain ⟨_, -, h⟩ := bind_eq_ok.mp h
    cases h
    obtain ⟨row, hrow, hentry⟩ := queuedUnder_publish hpublish
    refine ⟨row, ?_, hentry⟩
    show row ∈ (Sqlite.deferDelivery env published id change).brokerQueue
    rw [deferDelivery_brokerQueue]
    exact hrow

/-- A change with a route is not the end of its invocation. -/
theorem deliverable_of_route (hroute : routeOf change = some route) :
    Sqlite.Database.deliverable (targetOf change) = true ∧
      (targetOf change).isTerminal = false := by
  cases change with
  | retry route => exact ⟨rfl, rfl⟩
  | delayedRetry route delayMs => exact ⟨rfl, rfl⟩
  | reroute route => exact ⟨rfl, rfl⟩
  | concurrencyReroute route => exact ⟨rfl, rfl⟩
  | recover status stale route => exact ⟨rfl, rfl⟩
  | status s => cases hroute
  | success result => cases hroute
  | failure error => cases hroute

theorem queuedUnder_completeChange {runner : RunnerId} {old record : InvocationStatusRecord}
    {autoPurge : Bool} (hroute : routeOf change = some route)
    (h : Sqlite.completeChange env db id runner old change autoPurge = .ok (record, db')) :
    QueuedUnder db' id route := by
  obtain ⟨_, -, h⟩ := bind_eq_ok.mp h
  obtain ⟨moved, -, h⟩ := bind_eq_ok.mp h
  obtain ⟨_, -, h⟩ := bind_eq_ok.mp h
  obtain ⟨db₂, -, h⟩ := bind_eq_ok.mp h
  obtain ⟨db₃, hqueue, h⟩ := bind_eq_ok.mp h
  obtain ⟨db₄, hterminal, h⟩ := bind_eq_ok.mp h
  obtain ⟨_, -, h⟩ := bind_eq_ok.mp h
  cases h
  unfold Sqlite.writeTerminal at hterminal
  rw [(deliverable_of_route hroute).2] at hterminal
  cases hterminal
  exact queuedUnder_writeRoute hroute hqueue

/-- **A committed transaction leaves an entry that waits.** -/
theorem Commits.entry (h : Commits env route db id db') :
    ∃ row ∈ db'.brokerQueue, row.invocationId = id ∧ row.queueName = route.queue ∧
      row.priority = route.priority ∧ db'.isObsolete row = false := by
  -- an entry of an invocation that is known as deliverable, or not at all, waits
  have hwaits : (∀ status ∈ db'.statusOf id, Sqlite.Database.deliverable status = true) →
      QueuedUnder db' id route →
      ∃ row ∈ db'.brokerQueue, row.invocationId = id ∧ row.queueName = route.queue ∧
        row.priority = route.priority ∧ db'.isObsolete row = false := by
    rintro hstatus ⟨row, hrow, hid, hqueue, hpriority⟩
    refine ⟨row, hrow, hid, hqueue, hpriority, ?_⟩
    unfold Sqlite.Database.isObsolete
    rw [hid]
    cases hknown : db'.statusOf id with
    | none => rfl
    | some status => simp [hstatus status hknown]
  cases h with
  | @submit s _ hroute hbody =>
      obtain ⟨-, -, haccept⟩ := Sqlite.submitBody_ok hbody
      obtain ⟨-, -, -, hstanding⟩ := Sqlite.acceptSubmission_ok haccept
      refine hwaits ?_ ?_
      · intro status hstatus
        have hrecord := congrArg Sqlite.Standing.record (hstanding s.invocation.invocationId)
        rw [if_pos rfl] at hrecord
        have hregistered : db'.statusOf s.invocation.invocationId = some .registered := by
          show (db'.statusRecords.lookup _).map _ = _
          rw [show db'.statusRecords.lookup s.invocation.invocationId = _ from hrecord]
          rfl
        rw [hregistered] at hstatus
        cases hstatus
        rfl
      · obtain ⟨db₁, -, h⟩ := bind_eq_ok.mp haccept
        obtain ⟨_, -, h⟩ := bind_eq_ok.mp h
        obtain ⟨_, -, h⟩ := bind_eq_ok.mp h
        obtain ⟨db₂, -, h⟩ := bind_eq_ok.mp h
        obtain ⟨_, -, h⟩ := bind_eq_ok.mp h
        obtain ⟨_, -, h⟩ := bind_eq_ok.mp h
        obtain ⟨db₃, -, h⟩ := bind_eq_ok.mp h
        obtain ⟨db₄, hpublish, h⟩ := bind_eq_ok.mp h
        obtain ⟨_, -, h⟩ := bind_eq_ok.mp h
        obtain ⟨_, -, h⟩ := bind_eq_ok.mp h
        cases h
        rw [hroute] at hpublish
        obtain ⟨row, hrow, hentry⟩ := queuedUnder_publish hpublish
        exact ⟨row, hrow, hentry⟩
  | @change _ runner change autoPurge record _ hroute hbody =>
      have hdone : ∀ {db₁ : Sqlite.Database} {old : InvocationStatusRecord},
          Sqlite.completeChange env db₁ id runner old change autoPurge = .ok (record, db') →
          ∃ row ∈ db'.brokerQueue, row.invocationId = id ∧ row.queueName = route.queue ∧
            row.priority = route.priority ∧ db'.isObsolete row = false := by
        intro db₁ old hcomplete
        obtain ⟨-, hrecord, -, -, hstanding⟩ := Sqlite.completeChange_ok hcomplete
        refine hwaits ?_ (queuedUnder_completeChange hroute hcomplete)
        intro status hstatus
        have hmoved := congrArg Sqlite.Standing.record (hstanding id)
        rw [if_pos rfl] at hmoved
        have hsame : ∀ st : Sqlite.Standing,
            (((st.move record).pay change).route change).record =
              st.record.map fun _ => record := by
          intro st
          cases change <;> rfl
        rw [hsame] at hmoved
        obtain ⟨stored, hstored, rfl⟩ := Option.map_eq_some_iff.mp hstatus
        rw [show (db'.standing id).record = some stored from hstored] at hmoved
        obtain ⟨-, -, hnew⟩ := Option.map_eq_some_iff.mp hmoved.symm
        rw [← hnew, hrecord]
        exact (deliverable_of_route hroute).1
      obtain ⟨old, -, ⟨-, hcomplete⟩ | ⟨status, mid, db₁, -, -, -, hcomplete⟩⟩ :=
        Sqlite.changeBody_ok hbody
      · exact hdone hcomplete
      · exact hdone hcomplete

end Entries

/-! ## Retrieval -/

section Retrieval

variable {db : Sqlite.Database} {row : Sqlite.QueueRow}

/-- The search keeps the first of the highest entries. -/
theorem firstByPriority_append (older newer : List Sqlite.QueueRow)
    (holder : ∀ other ∈ older, row.priority.numericLe other.priority = false)
    (hnewer : ∀ other ∈ newer, other.priority.numericLe row.priority = true) :
    Sqlite.Database.firstByPriority (older ++ row :: newer) = some row := by
  have hmem : ∀ (rows : List Sqlite.QueueRow) (best : Sqlite.QueueRow),
      Sqlite.Database.firstByPriority rows = some best → best ∈ rows := by
    intro rows
    induction rows with
    | nil => exact fun best h => nomatch h
    | cons first rest ih =>
        intro best h
        unfold Sqlite.Database.firstByPriority at h
        split at h
        · cases h
          exact List.mem_cons_self
        · rename_i found hfound
          split at h
          · cases h
            exact List.mem_cons_self
          · cases h
            exact List.mem_cons_of_mem _ (ih _ hfound)
  induction older with
  | nil =>
      show Sqlite.Database.firstByPriority (row :: newer) = some row
      unfold Sqlite.Database.firstByPriority
      split
      · rfl
      · rename_i best hbest
        rw [if_pos (hnewer best (hmem _ _ hbest))]
  | cons first rest ih =>
      have hrest := ih fun other hother => holder other (List.mem_cons_of_mem _ hother)
      have hfirst := holder first List.mem_cons_self
      show Sqlite.Database.firstByPriority (first :: (rest ++ row :: newer)) = some row
      unfold Sqlite.Database.firstByPriority
      rw [hrest]
      simp [hfirst]

/-- Cleaning up a queue ends no lease that is held, and frees none. -/
theorem leaseIsFree_cleanup {now : Int} (order : List Nat) (queue : String)
    (h : db.leaseIsFree now row = true) : (db.cleanup order queue).leaseIsFree now row = true := by
  unfold Sqlite.Database.cleanup Sqlite.Database.leaseIsFree Sqlite.Database.deleteQueueRows
  have hfold : ∀ (rows : List Sqlite.QueueRow) (leases : Table Nat Int),
      rows.foldl (fun leases row => leases.erase row.id) leases =
        (rows.map Sqlite.QueueRow.id).foldl (fun leases id => leases.erase id) leases := by
    intro rows leases
    rw [List.foldl_map]
  dsimp only
  rw [hfold, Sqlite.lookup_foldl_erase]
  split
  · rfl
  · exact h

/-- **A retrieval returns the foremost entry.** -/
theorem reserve_foremost {env : Env} {leaseMs : Nat} {queue : String} {task : Option TaskId}
    {language : Option TaskLanguage} (hqueue : validQueueName queue = true)
    (h : Foremost db (timestampMillis env.clock) queue task language row) :
    (db.reserve env leaseMs queue task language).1 = .ok (some row.invocationId) := by
  have hvalid : validateRouting queue (.finite 0) = .ok () :=
    (validateRouting_ok_iff _ _).mpr ⟨hqueue, by decide⟩
  obtain ⟨older, newer, hrows, holder, hnewer⟩ := h.first
  unfold Sqlite.Database.reserve
  rw [hvalid]
  dsimp only
  -- what the retrieval sees is a part of the queue, in its order
  generalize hvisible : (fun other : Sqlite.QueueRow =>
    decide (other.queueName = queue) && task.all (fun t => decide (other.taskId = some t)) &&
      language.all (fun l => Sqlite.Database.forLanguage l other) &&
      (db.cleanup env.rowOrder queue).leaseIsFree (timestampMillis env.clock) other &&
      !(db.cleanup env.rowOrder queue).isObsolete other) = visible
  have hsees : visible row = true := by
    rw [← hvisible]
    have htask : task.all (fun t => decide (row.taskId = some t)) = true := by
      cases task with
      | none => rfl
      | some t => exact decide_eq_true (h.task t rfl)
    have hlanguage : language.all (fun l => Sqlite.Database.forLanguage l row) = true := by
      cases language with
      | none => rfl
      | some l => exact h.language l rfl
    have hwaiting : (db.cleanup env.rowOrder queue).isObsolete row = false := h.waiting
    simp [h.named, htask, hlanguage, leaseIsFree_cleanup env.rowOrder queue h.free, hwaiting]
  have hnamed : ∀ other, visible other = true → other.queueName = queue := by
    intro other hother
    rw [← hvisible] at hother
    simp only [Bool.and_eq_true, decide_eq_true_eq] at hother
    exact hother.1.1.1.1
  have hfirst : Sqlite.Database.firstByPriority
      ((db.cleanup env.rowOrder queue).brokerQueue.filter visible) = some row := by
    unfold Sqlite.Database.cleanup Sqlite.Database.deleteQueueRows
    dsimp only
    rw [hrows, List.filter_append, List.filter_cons, h.waiting]
    simp only [Bool.and_false, Bool.false_and, Bool.not_false, if_true]
    rw [List.filter_append, List.filter_cons, if_pos hsees]
    refine firstByPriority_append _ _ (fun other hother => ?_) (fun other hother => ?_)
    · obtain ⟨hkept, hother⟩ := List.mem_filter.mp hother
      exact holder other (List.mem_filter.mp hkept).1 (hnamed other hother)
    · obtain ⟨hkept, hother⟩ := List.mem_filter.mp hother
      exact hnewer other (List.mem_filter.mp hkept).1 (hnamed other hother)
  rw [hfirst]

end Retrieval

/-! ## Which routes are in order -/

section Routes

variable {env : Env} {db db' : Sqlite.Database} {id : InvocationId} {route : PublicationRoute}

theorem validateRoute_ok_iff (route : PublicationRoute) :
    Sqlite.validateRoute route = .ok () ↔ route.queue ≠ "" ∧ route.priority.isFinite = true := by
  unfold Sqlite.validateRoute
  split
  · rename_i hrefused
    simp only [reduceCtorEq, false_iff, not_and]
    intro hqueue
    rcases hrefused with hempty | hinfinite
    · exact absurd hempty hqueue
    · simp [hinfinite]
  · rename_i haccepted
    rw [not_or] at haccepted
    simp [haccepted.1, haccepted.2]

/-- Whatever `validate_routing` accepts is accepted by SQLite. -/
theorem validateRoute_of_validateRouting
    (h : validateRouting route.queue route.priority = .ok ()) :
    Sqlite.validateRoute route = .ok () := by
  obtain ⟨hqueue, hpriority⟩ := (validateRouting_ok_iff _ _).mp h
  refine (validateRoute_ok_iff route).mpr ⟨?_, ?_⟩
  · intro hempty
    rw [hempty] at hqueue
    exact absurd hqueue (by decide)
  · cases hvalue : route.priority with
    | finite value => rfl
    | negZero => rfl
    | negInf => rw [hvalue] at hpriority; cases hpriority
    | posInf => rw [hvalue] at hpriority; cases hpriority
    | nan => rw [hvalue] at hpriority; cases hpriority

/-- No transaction commits with a route that SQLite refuses. -/
theorem Commits.validateRoute (h : Commits env route db id db') :
    Sqlite.validateRoute route = .ok () := by
  have hqueue : ∀ {change : PublicationChange} {runner : RunnerId} {old : InvocationStatusRecord}
      {autoPurge : Bool} {db₁ : Sqlite.Database} {record : InvocationStatusRecord},
      routeOf change = some route →
      Sqlite.completeChange env db₁ id runner old change autoPurge = .ok (record, db') →
      Sqlite.validateRoute route = .ok () := by
    intro change runner old autoPurge db₁ record hroute h
    obtain ⟨_, -, h⟩ := bind_eq_ok.mp h
    obtain ⟨moved, -, h⟩ := bind_eq_ok.mp h
    obtain ⟨_, -, h⟩ := bind_eq_ok.mp h
    obtain ⟨db₂, -, h⟩ := bind_eq_ok.mp h
    obtain ⟨db₃, hwrite, -⟩ := bind_eq_ok.mp h
    unfold Sqlite.writeRoute at hwrite
    rw [hroute] at hwrite
    dsimp only at hwrite
    split at hwrite
    · cases hwrite
    · obtain ⟨published, hpublish, -⟩ := bind_eq_ok.mp hwrite
      obtain ⟨_, hvalid, -⟩ := bind_eq_ok.mp hpublish
      exact hvalid
  cases h with
  | submit hroute hbody =>
      obtain ⟨_, hvalid, -⟩ := bind_eq_ok.mp hbody
      rw [hroute] at hvalid
      exact hvalid
  | change hroute hbody =>
      obtain ⟨old, -, ⟨-, hcomplete⟩ | ⟨status, mid, db₁, -, -, -, hcomplete⟩⟩ :=
        Sqlite.changeBody_ok hbody
      · exact hqueue hroute hcomplete
      · exact hqueue hroute hcomplete

/-- An invocation of a task, to be queued under the route. -/
def routedSubmission (route : PublicationRoute) : SubmissionPublication where
  invocation := InvocationDTO.new 0 ⟨"invocation"⟩ ⟨.rust, "module", "task"⟩
    ⟨⟨.rust, "module", "task"⟩, ""⟩
  call := ⟨⟨⟨.rust, "module", "task"⟩, ""⟩, ⟨.rust, "module", "task"⟩, .empty⟩
  runnerId := ⟨"client"⟩
  workflowRoot := false
  ccArguments := none
  route := route

/-- A route that SQLite accepts is committed by a submission to an empty database. -/
theorem commits_routedSubmission (h : Sqlite.validateRoute route = .ok ()) :
    ∃ db', Commits {} route {} ⟨"invocation"⟩ db' := by
  have haccepted : ∃ db', Sqlite.submitBody {} (routedSubmission route) {} = .ok (some db') := by
    unfold Sqlite.submitBody Sqlite.acceptSubmission Sqlite.publish
    rw [show Sqlite.validateRoute (routedSubmission route).route = .ok () from h]
    exact ⟨_, rfl⟩
  obtain ⟨db', hbody⟩ := haccepted
  exact ⟨db', .submit rfl hbody⟩

/-- A refused queue name is refused by the retrieval as well. -/
theorem validQueueName_of_reserve {env : Env} {leaseMs : Nat} {queue : String}
    {task : Option TaskId} {language : Option TaskLanguage} {found : Option InvocationId}
    (h : (db.reserve env leaseMs queue task language).1 = .ok found) :
    validQueueName queue = true := by
  unfold Sqlite.Database.reserve at h
  split at h
  · cases h
  · rename_i hvalid
    exact ((validateRouting_ok_iff _ _).mp hvalid).1

theorem reserve_ok (db : Sqlite.Database) (env : Env) (leaseMs : Nat) {queue : String}
    (task : Option TaskId) (language : Option TaskLanguage) (hqueue : validQueueName queue = true) :
    ∃ found, (db.reserve env leaseMs queue task language).1 = .ok found := by
  have hvalid : validateRouting queue (.finite 0) = .ok () :=
    (validateRouting_ok_iff _ _).mpr ⟨hqueue, by decide⟩
  unfold Sqlite.Database.reserve
  rw [hvalid]
  dsimp only
  split
  · exact ⟨_, rfl⟩
  · exact ⟨_, rfl⟩

/-- **Which routes can be delivered**: those that SQLite refuses, of which there is nothing to
deliver, and those with a valid queue name. -/
theorem delivered_iff (route : PublicationRoute) :
    Delivered route ↔
      route.queue = "" ∨ route.priority.isFinite = false ∨ validQueueName route.queue = true := by
  constructor
  · intro hdelivered
    by_cases haccepted : Sqlite.validateRoute route = .ok ()
    · obtain ⟨db', hcommits⟩ := commits_routedSubmission haccepted
      obtain ⟨-, hserved⟩ := hdelivered _ _ _ _ hcommits
      obtain ⟨⟨found, hfound⟩, -⟩ := hserved {} {} 0 none none
      exact .inr (.inr (validQueueName_of_reserve hfound))
    · rw [validateRoute_ok_iff, not_and_or, not_not, Bool.not_eq_true] at haccepted
      rcases haccepted with hempty | hinfinite
      · exact .inl hempty
      · exact .inr (.inl hinfinite)
  · intro hroute env db id db' hcommits
    obtain ⟨hnonempty, hfinite⟩ := (validateRoute_ok_iff route).mp hcommits.validateRoute
    have hqueue : validQueueName route.queue = true := by
      rcases hroute with hempty | hinfinite | hqueue
      · exact absurd hempty hnonempty
      · rw [hfinite] at hinfinite
        cases hinfinite
      · exact hqueue
    refine ⟨hcommits.entry, fun later env' leaseMs task language => ⟨?_, ?_⟩⟩
    · exact reserve_ok later env' leaseMs task language hqueue
    · rintro row rfl hforemost
      exact reserve_foremost hqueue hforemost

/-- **Which routes all backends judge alike.** -/
theorem acceptedAlike_iff (route : PublicationRoute) :
    AcceptedAlike route ↔ route.queue = "" ∨ route.priority.isFinite = false ∨
      validateRouting route.queue route.priority = .ok () := by
  have hmem : ∀ (broker : Mem.MemBroker) (id : InvocationId) (taskId : Option TaskId),
      (broker.routeInvocationWithOptions id taskId route.queue route.priority).1 = .ok () ↔
        validateRouting route.queue route.priority = .ok () := by
    intro broker id taskId
    unfold Mem.MemBroker.routeInvocationWithOptions
    split
    · rename_i hinvalid
      simp [hinvalid]
    · rename_i hvalid
      simp [hvalid]
  constructor
  · intro halike
    by_cases haccepted : Sqlite.validateRoute route = .ok ()
    · have hbroker := (halike.mem {} ⟨"invocation"⟩ none).mp haccepted
      exact .inr (.inr ((hmem {} ⟨"invocation"⟩ none).mp hbroker))
    · rw [validateRoute_ok_iff, not_and_or, not_not, Bool.not_eq_true] at haccepted
      rcases haccepted with hempty | hinfinite
      · exact .inl hempty
      · exact .inr (.inl hinfinite)
  · intro hroute
    have hsame : Sqlite.validateRoute route = .ok () ↔
        validateRouting route.queue route.priority = .ok () := by
      refine ⟨fun haccepted => ?_, validateRoute_of_validateRouting⟩
      obtain ⟨hnonempty, hfinite⟩ := (validateRoute_ok_iff route).mp haccepted
      rcases hroute with hempty | hinfinite | hvalid
      · exact absurd hempty hnonempty
      · rw [hfinite] at hinfinite
        cases hinfinite
      · exact hvalid
    refine ⟨fun broker id taskId => hsame.trans (hmem broker id taskId).symm,
      fun db id taskId => hsame.trans ?_, fun hlength => hsame.trans ?_⟩
    · unfold Sqlite.Database.routeInvocationWithOptions
      split
      · rename_i hinvalid
        simp [hinvalid]
      · rename_i hvalid
        simp [hvalid]
    · have hcheck : ∀ valid, Redis.ValidRoute.check route.queue route.priority = .ok valid →
          validateRouting route.queue route.priority = .ok () := by
        intro valid hvalid
        unfold Redis.ValidRoute.check at hvalid
        split at hvalid
        · cases hvalid
        · assumption
      constructor
      · intro hvalid
        refine ⟨⟨route.queue, route.priority, hvalid⟩, ?_⟩
        unfold Redis.validateRoute
        have haccepts : Redis.ValidRoute.check route.queue route.priority =
            .ok ⟨route.queue, route.priority, hvalid⟩ := by
          unfold Redis.ValidRoute.check
          split
          · rename_i hinvalid
            rw [hvalid] at hinvalid
            cases hinvalid
          · rfl
        rw [haccepts]
        show (if 256 < route.queue.utf8ByteSize then _ else _) = _
        rw [if_neg (Nat.not_lt.mpr hlength)]
      · rintro ⟨valid, hvalid⟩
        obtain ⟨checked, hchecked, -⟩ := bind_eq_ok.mp hvalid
        exact hcheck checked hchecked

/-- **The routes that can be delivered and are accepted everywhere or nowhere** are those that
are refused everywhere and those that `validate_routing` accepts.  A nonempty queue name with
another character is accepted by the publication on SQLite and can never be retrieved; a
priority beyond the bounds is accepted there only. -/
theorem routes_in_order_iff (route : PublicationRoute) :
    Delivered route ∧ AcceptedAlike route ↔ route.queue = "" ∨ route.priority.isFinite = false ∨
      validateRouting route.queue route.priority = .ok () := by
  rw [delivered_iff, acceptedAlike_iff]
  constructor
  · exact fun h => h.2
  · intro h
    refine ⟨?_, h⟩
    rcases h with hempty | hinfinite | hvalid
    · exact .inl hempty
    · exact .inr (.inl hinfinite)
    · exact .inr (.inr ((validateRouting_ok_iff _ _).mp hvalid).1)

/-- A queue name with a blank: accepted on SQLite, and refused by every retrieval. -/
theorem blank_queue_strands :
    ¬ (Delivered ⟨"high priority", .finite 0⟩ ∧ AcceptedAlike ⟨"high priority", .finite 0⟩) := by
  rintro ⟨hdelivered, -⟩
  have hnamed := (delivered_iff _).mp hdelivered
  revert hnamed
  decide

end Routes

end Rustvello.Backends
