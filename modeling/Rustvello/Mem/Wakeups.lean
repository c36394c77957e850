import Rustvello.Mem.BrokerOrder
import Rustvello.Mem.WaitForWork
import Mathlib.Logic.Function.Basic
import Mathlib.Logic.Relation

/-!
# Wakeups of the in-memory broker

Any number of workers of any languages and queues retrieve from one `MemBroker` and wait for
work where they find none, while entries are routed, with and without a delay, and time passes.
Retrieving from one queue, reading the clock in `wait_for_work` and blocking are separate steps,
and so are pushing an entry and notifying.

* `Crew`, `Crew.Step` — the system and its steps;
* `Crew.Lost` — a due entry is queued and every worker that accepts it is blocked, with
  neither a notification nor a timer on the way;
* `Crew.Orderly` — the steps that lose nothing: a notification goes to a worker that can use
  it, and no entry becomes due while all who accept it are between retrieving and reading the
  clock;
* `Crew.Alert` — what orderly steps keep: every due entry has a notification or an attentive
  worker;
* `lostWakeup_free` — no orderly run reaches a lost entry;
* `lostWakeup_possible` — runs that are not orderly do.
-/

namespace Rustvello.Mem

open Proto Rustvello.Core

/-! ## Workers -/

/-- What a worker retrieves. -/
structure WorkerScope where
  language : TaskLanguage
  queues : List String

/-- The worker retrieves entries like this one once they are due. -/
def WorkerScope.Accepts (scope : WorkerScope) (item : QueuedInvocation) : Prop :=
  item.queueName ∈ scope.queues ∧ MemBroker.forLanguage scope.language item = true

/-- Where a worker stands. -/
inductive WorkerPhase where
  /-- Outside the broker, or about to retrieve. -/
  | awake
  /-- Retrieving, with these queues still to ask. -/
  | searching (rest : List String)
  /-- In `wait_for_work`. -/
  | waiting (wait : Wait)
deriving DecidableEq

namespace WorkerPhase

/-- The worker is in the line that `notify_one` takes a waiter from. -/
def Blocked : WorkerPhase → Prop
  | waiting wait => wait.Blocked
  | _ => False

/-- The worker will come back to the entry's queue by itself; `broadcast` tells that a
`notify_waiters` is on the way. -/
def Attentive (broadcast : Prop) (item : QueuedInvocation) : WorkerPhase → Prop
  | awake => True
  | searching rest => item.queueName ∈ rest
  | waiting (.created called) => called = true ∨ broadcast
  | waiting (.looked called due) => called = true ∨ due.isSome = true ∨ broadcast
  | waiting (.blocked due) => due.isSome = true ∨ broadcast
  | waiting .woken => True

/-- The worker has asked the entry's queue in vain and has not read the clock in
`wait_for_work` yet. -/
def Between (broadcast : Prop) (item : QueuedInvocation) : WorkerPhase → Prop
  | searching rest => item.queueName ∉ rest
  | waiting (.created called) => called = false ∧ ¬broadcast
  | _ => False

/-- After a retrieval from one queue: the next queue, unless something was found. -/
def afterRetrieval (rest : List String) : RustvelloResult (Option InvocationId) → WorkerPhase
  | .ok none => searching rest
  | _ => awake

def notifyWaiters : WorkerPhase → WorkerPhase
  | waiting wait => waiting wait.notifyWaiters
  | phase => phase

variable {item : QueuedInvocation} {phase : WorkerPhase} {broadcast : Prop}

theorem Attentive.mono {broadcast broadcast' : Prop} (hle : broadcast → broadcast')
    (h : phase.Attentive broadcast item) :
    phase.Attentive broadcast' item := by
  unfold Attentive at h ⊢
  split <;> first | exact h | exact h.imp_right hle | exact h.imp_right (Or.imp_right hle)

/-- With a `notify_waiters` on the way only a search that has passed the queue is inattentive. -/
theorem attentive_or_between_of (hbroadcast : broadcast) (item : QueuedInvocation)
    (phase : WorkerPhase) :
    phase.Attentive broadcast item ∨ phase.Between broadcast item := by
  unfold Attentive Between
  cases phase with
  | awake => exact .inl trivial
  | searching rest => exact Classical.em (item.queueName ∈ rest)
  | waiting wait =>
      cases wait with
      | created called => exact .inl (.inr hbroadcast)
      | looked called due => exact .inl (.inr (.inr hbroadcast))
      | blocked due => exact .inl (.inr hbroadcast)
      | woken => exact .inl trivial

/-- `notify_waiters` makes attentive whoever was so because it was on the way. -/
theorem Attentive.notifyWaiters (h : phase.Attentive True item) :
    phase.notifyWaiters.Attentive broadcast item := by
  cases phase with
  | awake => exact trivial
  | searching rest => exact h
  | waiting wait =>
      cases wait with
      | created called => exact .inl rfl
      | looked called due => exact .inl rfl
      | blocked due => exact trivial
      | woken => exact trivial

/-- A search that has passed the queue is not reached. -/
theorem Between.notifyWaiters (h : phase.Between True item) :
    phase.notifyWaiters.Between broadcast item := by
  cases phase with
  | awake => exact h
  | searching rest => exact h
  | waiting wait =>
      cases wait with
      | created called => exact absurd trivial h.2
      | looked called due => exact h
      | blocked due => exact h
      | woken => exact h

theorem notifyWaiters_not_blocked (phase : WorkerPhase) : ¬phase.notifyWaiters.Blocked := by
  intro h
  cases phase with
  | awake => exact h
  | searching rest => exact h
  | waiting wait => cases wait <;> exact h

end WorkerPhase

/-! ## The system -/

variable {ι : Type}

/-- The broker, the stored permit of its `Notify`, and every worker. -/
structure Crew (ι : Type) where
  now : Timestamp
  broker : MemBroker
  permit : Bool
  phases : ι → WorkerPhase
  /-- Routing calls that have pushed their entry and not called `notify_one` yet. -/
  ones : Nat
  /-- Delayed routing calls that have not called `notify_waiters` yet. -/
  alls : Nat

namespace Crew

inductive Move (ι : Type) where
  | search (i : ι) (order : List String)
  | retrieve (i : ι)
  | waitForWork (i : ι)
  | wait (i : ι)
  | takePermit (i : ι)
  | route (id : InvocationId) (taskId : Option TaskId) (queueName : String) (priority : F64)
  | routeAfter (id : InvocationId) (taskId : Option TaskId) (queueName : String)
      (priority : F64) (delay : Nat)
  | notifyOne (woken : Option ι)
  | notifyWaiters
  | tick (later : Timestamp)

def moved [DecidableEq ι] (s : Crew ι) (i : ι) (phase : WorkerPhase) : Crew ι :=
  { s with phases := Function.update s.phases i phase }

/-- The steps of the system.  A rejected routing call changes nothing and is left out. -/
inductive Step [DecidableEq ι] (workers : ι → WorkerScope) :
    Crew ι → Move ι → Crew ι → Prop
  | search {s : Crew ι} {i : ι} {order : List String} (hphase : s.phases i = .awake)
      (horder : order.Perm (workers i).queues) :
      Step workers s (.search i order) (s.moved i (.searching order))
  | retrieve {s : Crew ι} {i : ι} {queueName : String} {rest : List String}
      {result : RustvelloResult (Option InvocationId)} {broker : MemBroker}
      (hphase : s.phases i = .searching (queueName :: rest))
      (hresult : s.broker.retrieveInvocationForLanguageFromQueue s.now (workers i).language
        queueName = (result, broker)) :
      Step workers s (.retrieve i)
        ({ s with broker := broker }.moved i (WorkerPhase.afterRetrieval rest result))
  | waitForWork {s : Crew ι} {i : ι} (hphase : s.phases i = .searching []) :
      Step workers s (.waitForWork i) (s.moved i (.waiting (.created false)))
  | wait {s : Crew ι} {i : ι} {wait : Wait} {next : Option Wait}
      (hphase : s.phases i = .waiting wait)
      (hstep : wait.Step s.broker.queue s.now s.permit next) :
      Step workers s (.wait i) (s.moved i (next.elim .awake .waiting))
  | takePermit {s : Crew ι} {i : ι} {called : Bool} {due : Option Timestamp}
      (hphase : s.phases i = .waiting (.looked called due)) (hpermit : s.permit = true) :
      Step workers s (.takePermit i) ({ s with permit := false }.moved i .awake)
  | route {s : Crew ι} {id : InvocationId} {taskId : Option TaskId} {queueName : String}
      {priority : F64} {broker : MemBroker}
      (hresult : s.broker.routeInvocationWithOptions id taskId queueName priority =
        (.ok (), broker)) :
      Step workers s (.route id taskId queueName priority)
        { s with broker := broker, ones := s.ones + 1 }
  | routeAfter {s : Crew ι} {id : InvocationId} {taskId : Option TaskId} {queueName : String}
      {priority : F64} {delay : Nat} {broker : MemBroker}
      (hresult : s.broker.routeInvocationAfter s.now id taskId queueName priority delay =
        (.ok (), broker)) :
      Step workers s (.routeAfter id taskId queueName priority delay)
        { s with broker := broker, alls := s.alls + 1 }
  | wakeOne {s : Crew ι} {i : ι} {due : Option Timestamp} {ones : Nat}
      (hones : s.ones = ones + 1) (hphase : s.phases i = .waiting (.blocked due)) :
      Step workers s (.notifyOne (some i)) ({ s with ones := ones }.moved i (.waiting .woken))
  | storePermit {s : Crew ι} {ones : Nat} (hones : s.ones = ones + 1)
      (hnobody : ∀ i, ¬(s.phases i).Blocked) :
      Step workers s (.notifyOne none) { s with ones := ones, permit := true }
  | notifyWaiters {s : Crew ι} {alls : Nat} (halls : s.alls = alls + 1) :
      Step workers s .notifyWaiters
        { s with alls := alls, phases := fun i => (s.phases i).notifyWaiters }
  | tick {s : Crew ι} {later : Timestamp} (hle : s.now ≤ later) :
      Step workers s (.tick later) { s with now := later }

/-- Nothing was routed and nobody waits yet. -/
structure Fresh (s : Crew ι) : Prop where
  queue : s.broker.queue = []
  permit : s.permit = false
  phases : ∀ i, s.phases i = .awake
  ones : s.ones = 0
  alls : s.alls = 0

variable (workers : ι → WorkerScope)

/-- A due entry is queued that somebody accepts, and everybody who accepts it is blocked with
no timer, while no routing call has a notification left to make. -/
def Lost (s : Crew ι) : Prop :=
  s.ones = 0 ∧ s.alls = 0 ∧ ∃ item ∈ s.broker.queue, item.isDue s.now = true ∧
    (∃ i, (workers i).Accepts item) ∧
    ∀ i, (workers i).Accepts item → s.phases i = .waiting (.blocked none)

/-! ## Orderly steps -/

def Attends (s : Crew ι) (i : ι) (item : QueuedInvocation) : Prop :=
  (s.phases i).Attentive (0 < s.alls) item

def Between (s : Crew ι) (i : ι) (item : QueuedInvocation) : Prop :=
  (s.phases i).Between (0 < s.alls) item

/-- If worker `i` takes a notification, `others` more being on the way, then every due entry
that somebody accepts keeps one, or is accepted by `i` or by an attentive worker. -/
def Useful (s : Crew ι) (i : ι) (others : Nat) : Prop :=
  ∀ item ∈ s.broker.queue, item.isDue s.now = true → (∃ j, (workers j).Accepts item) →
    0 < others ∨ (workers i).Accepts item ∨ ∃ j, (workers j).Accepts item ∧ s.Attends j item

/-- Where an entry becomes due that somebody accepts, a notification is on the way or somebody
who accepts it is not between retrieving and reading the clock. -/
def Noticed (s : Crew ι) (broadcast : Prop) (item : QueuedInvocation) : Prop :=
  (∃ i, (workers i).Accepts item) → s.permit = true ∨ 0 < s.ones ∨
    ∃ i, (workers i).Accepts item ∧ ¬(s.phases i).Between broadcast item

/-- The steps after which no entry is lost. -/
def Orderly (s : Crew ι) : Move ι → Prop
  | .takePermit i => s.Useful workers i s.ones
  | .notifyOne (some i) => s.Useful workers i (s.ones - 1)
  | .tick later => ∀ item ∈ s.broker.queue, item.isDue s.now = false →
      item.isDue later = true → s.Noticed workers (0 < s.alls) item
  | .routeAfter id taskId queueName priority delay => delay = 0 →
      s.Noticed workers True ⟨id, taskId, queueName, priority, some s.now⟩
  | _ => True

/-- Any steps, one after the other. -/
def Run [DecidableEq ι] : Crew ι → Crew ι → Prop :=
  Relation.ReflTransGen fun s s' => ∃ move, Step workers s move s'

/-- Orderly steps, one after the other. -/
def OrderlyRun [DecidableEq ι] : Crew ι → Crew ι → Prop :=
  Relation.ReflTransGen fun s s' => ∃ move, Step workers s move s' ∧ s.Orderly workers move

/-! ## What orderly steps keep -/

/-- A notification is on the way or an attentive worker accepts the entry. -/
def Heeded (s : Crew ι) (item : QueuedInvocation) : Prop :=
  s.permit = true ∨ 0 < s.ones ∨ ∃ i, (workers i).Accepts item ∧ s.Attends i item

/-- The invariant of orderly runs. -/
structure Alert (s : Crew ι) : Prop where
  heeded : ∀ item ∈ s.broker.queue, item.isDue s.now = true →
    (∃ i, (workers i).Accepts item) → s.Heeded workers item
  unblocked : s.permit = true → ∀ i, ¬(s.phases i).Blocked
  /-- Who waits while a delayed entry is queued has armed a timer. -/
  armed : ∀ item ∈ s.broker.queue, item.isDue s.now = false →
    ∀ i, s.Attends i item ∨ s.Between i item

variable {s : Crew ι}

theorem Fresh.alert (h : s.Fresh) : s.Alert workers where
  heeded := by
    intro item hitem
    rw [h.queue] at hitem
    cases hitem
  unblocked := by
    intro hpermit
    rw [h.permit] at hpermit
    cases hpermit
  armed := by
    intro item hitem
    rw [h.queue] at hitem
    cases hitem

/-- No entry is lost where all are heeded. -/
theorem Alert.not_lost (h : s.Alert workers) : ¬s.Lost workers := by
  rintro ⟨hones, halls, item, hitem, hdue, hsome, hblocked⟩
  rcases h.heeded item hitem hdue hsome with hpermit | hpos | ⟨i, haccepts, hattends⟩
  · obtain ⟨i, haccepts⟩ := hsome
    refine h.unblocked hpermit i ?_
    rw [hblocked i haccepts]
    exact trivial
  · omega
  · unfold Attends at hattends
    rw [hblocked i haccepts] at hattends
    rcases hattends with hdue | hpos
    · cases hdue
    · omega

variable {workers}

section Steps

variable [DecidableEq ι] {s : Crew ι} {i : ι} {broker : MemBroker}

theorem moved_phases (s : Crew ι) (i j : ι) (phase : WorkerPhase) :
    (s.moved i phase).phases j = if j = i then phase else s.phases j := by
  simp only [moved, Function.update_apply]

/-- One worker moves on, and perhaps takes an entry: the others stay as they are. -/
theorem Alert.moved (h : s.Alert workers) {phase : WorkerPhase}
    (hqueue : ∀ item ∈ broker.queue, item ∈ s.broker.queue)
    (hdue : ∀ item ∈ broker.queue, item.isDue s.now = true → (workers i).Accepts item →
      s.Attends i item → phase.Attentive (0 < s.alls) item)
    (hpermit : s.permit = true → ¬phase.Blocked)
    (hpending : ∀ item ∈ broker.queue, item.isDue s.now = false →
      phase.Attentive (0 < s.alls) item ∨ phase.Between (0 < s.alls) item) :
    ({ s with broker := broker }.moved i phase).Alert workers where
  heeded := by
    intro item hitem hnow hsome
    rcases h.heeded item (hqueue item hitem) hnow hsome with hfree | hpos | ⟨j, haccepts, hattends⟩
    · exact .inl hfree
    · exact .inr (.inl hpos)
    · refine .inr (.inr ⟨j, haccepts, ?_⟩)
      unfold Attends
      rw [moved_phases]
      split
      · rename_i heq
        subst heq
        exact hdue item hitem hnow haccepts hattends
      · exact hattends
  unblocked := by
    intro hfree j
    rw [moved_phases]
    split
    · exact hpermit hfree
    · exact h.unblocked hfree j
  armed := by
    intro item hitem hnow j
    unfold Attends Between
    rw [moved_phases]
    split
    · exact hpending item hitem hnow
    · exact h.armed item (hqueue item hitem) hnow j

/-- A worker that is awake again cannot be the reason of a loss. -/
theorem Alert.awakened (h : s.Alert workers) (i : ι)
    (hqueue : ∀ item ∈ broker.queue, item ∈ s.broker.queue) :
    ({ s with broker := broker }.moved i .awake).Alert workers :=
  h.moved hqueue (fun _ _ _ _ _ => trivial) (fun _ hblocked => hblocked)
    fun _ _ _ => .inl trivial

/-- A search starts over all queues of the worker. -/
theorem Alert.search (h : s.Alert workers) {order : List String}
    (horder : order.Perm (workers i).queues) : (s.moved i (.searching order)).Alert workers :=
  h.moved (fun _ hitem => hitem)
    (fun _ _ _ haccepts _ => horder.mem_iff.mpr haccepts.1)
    (fun _ hblocked => hblocked)
    fun item _ _ => Classical.em (item.queueName ∈ order)

/-- A retrieval that finds nothing has shown that no due entry of the queue is for the worker. -/
theorem Alert.retrieve (h : s.Alert workers) {queueName : String} {rest : List String}
    {result : RustvelloResult (Option InvocationId)}
    (hphase : s.phases i = .searching (queueName :: rest))
    (hresult : s.broker.retrieveInvocationForLanguageFromQueue s.now (workers i).language
      queueName = (result, broker)) :
    ({ s with broker := broker }.moved i (WorkerPhase.afterRetrieval rest result)).Alert
      workers := by
  unfold MemBroker.retrieveInvocationForLanguageFromQueue at hresult
  split at hresult
  · cases hresult
    exact h.awakened i fun _ hitem => hitem
  · split at hresult
    · rename_i hnone
      cases hresult
      refine h.moved (fun _ hitem => hitem) ?_ (fun _ hblocked => hblocked)
        fun item _ _ => Classical.em (item.queueName ∈ rest)
      intro item hitem hdue haccepts hattends
      unfold Attends at hattends
      rw [hphase] at hattends
      rcases List.mem_cons.mp hattends with hqueue | hrest
      · have hpassed := (MemBroker.selectIndex_eq_none _ _).mp hnone item hitem
        rw [hdue, haccepts.2, decide_eq_true hqueue] at hpassed
        cases hpassed
      · exact hrest
    · cases hresult
      exact h.awakened i fun _ hitem => List.mem_of_mem_eraseIdx hitem

theorem Alert.waitForWork (h : s.Alert workers) (hphase : s.phases i = .searching []) :
    (s.moved i (.waiting (.created false))).Alert workers := by
  refine h.moved (fun _ hitem => hitem) ?_ (fun _ hblocked => hblocked) ?_
  · intro item _ _ _ hattends
    unfold Attends at hattends
    rw [hphase] at hattends
    cases hattends
  · intro item _ _
    by_cases hbroadcast : 0 < s.alls
    · exact .inl (.inr hbroadcast)
    · exact .inr ⟨rfl, hbroadcast⟩

/-- Inside `wait_for_work`: reading the clock arms the timer if an entry is delayed, and the
timer stays armed. -/
theorem Alert.wait (h : s.Alert workers) {wait : Wait} {next : Option Wait}
    (hphase : s.phases i = .waiting wait) (hstep : wait.Step s.broker.queue s.now s.permit next) :
    (s.moved i (next.elim .awake .waiting)).Alert workers := by
  have hkeep : ∀ item ∈ s.broker.queue, item ∈ s.broker.queue := fun _ hitem => hitem
  cases hstep with
  | look =>
      refine h.moved hkeep ?_ (fun _ hblocked => hblocked) ?_
      · intro item _ _ _ hattends
        unfold Attends at hattends
        rw [hphase] at hattends
        exact hattends.imp_right .inr
      · intro item hitem hpending
        exact .inl (.inr (.inl (nextDue_isSome hitem hpending)))
  | block hpermit hlater =>
      refine h.moved hkeep ?_ ?_ ?_
      · intro item _ _ _ hattends
        unfold Attends at hattends
        rw [hphase] at hattends
        exact hattends.resolve_left Bool.false_ne_true
      · intro hfree
        rw [hpermit] at hfree
        cases hfree
      · intro item hitem hpending
        have harmed := h.armed item hitem hpending i
        unfold Attends Between at harmed
        rw [hphase] at harmed
        rcases harmed with hattends | hbetween
        · exact .inl (hattends.resolve_left Bool.false_ne_true)
        · cases hbetween
  | called => exact h.awakened i hkeep
  | elapsed _ => exact h.awakened i hkeep
  | timer _ => exact h.awakened i hkeep
  | resume => exact h.awakened i hkeep

/-- A notification is used up by a worker for whom it is useful. -/
theorem Alert.takeNotification (h : s.Alert workers) {permit : Bool} {ones : Nat}
    {phase : WorkerPhase} (huseful : s.Useful workers i ones)
    (hpermit : permit = true → s.permit = true)
    (hattentive : ∀ item, phase.Attentive (0 < s.alls) item) (hblocked : ¬phase.Blocked) :
    ({ s with permit := permit, ones := ones }.moved i phase).Alert workers where
  heeded := by
    intro item hitem hdue hsome
    have hself : (workers i).Accepts item → ∃ j, (workers j).Accepts item ∧
        ({ s with permit := permit, ones := ones }.moved i phase).Attends j item := by
      intro haccepts
      refine ⟨i, haccepts, ?_⟩
      unfold Attends
      rw [moved_phases, if_pos rfl]
      exact hattentive item
    rcases huseful item hitem hdue hsome with hpos | haccepts | ⟨j, haccepts, hattends⟩
    · exact .inr (.inl hpos)
    · exact .inr (.inr (hself haccepts))
    · by_cases hji : j = i
      · subst hji
        exact .inr (.inr (hself haccepts))
      · refine .inr (.inr ⟨j, haccepts, ?_⟩)
        unfold Attends
        rw [moved_phases, if_neg hji]
        exact hattends
  unblocked := by
    intro hfree j
    rw [moved_phases]
    split
    · exact hblocked
    · exact h.unblocked (hpermit hfree) j
  armed := by
    intro item hitem hpending j
    unfold Attends Between
    rw [moved_phases]
    split
    · exact .inl (hattentive item)
    · exact h.armed item hitem hpending j

end Steps

theorem Alert.storePermit (h : s.Alert workers) (ones : Nat)
    (hnobody : ∀ i, ¬(s.phases i).Blocked) :
    { s with ones := ones, permit := true }.Alert workers where
  heeded := fun _ _ _ _ => .inl rfl
  unblocked := fun _ => hnobody
  armed := h.armed

theorem Alert.notifyWaiters (h : s.Alert workers) (alls : Nat) :
    { s with alls := alls, phases := fun i => (s.phases i).notifyWaiters }.Alert workers where
  heeded := by
    intro item hitem hdue hsome
    refine (h.heeded item hitem hdue hsome).imp_right (Or.imp_right ?_)
    rintro ⟨i, haccepts, hattends⟩
    exact ⟨i, haccepts, (hattends.mono fun _ => trivial).notifyWaiters⟩
  unblocked := fun _ i => (s.phases i).notifyWaiters_not_blocked
  armed := by
    intro item _ _ i
    rcases WorkerPhase.attentive_or_between_of trivial item (s.phases i) with hattends | hbetween
    · exact .inl hattends.notifyWaiters
    · exact .inr hbetween.notifyWaiters

/-- Routing without a delay: the new entry has its own notification on the way. -/
theorem Alert.route (h : s.Alert workers) (item : QueuedInvocation) (hnow : item.notBefore = none) :
    { s with broker := s.broker.push item, ones := s.ones + 1 }.Alert workers where
  heeded := fun _ _ _ _ => .inr (.inl (Nat.succ_pos _))
  unblocked := h.unblocked
  armed := by
    intro other hother hpending
    rcases List.mem_append.mp hother with hold | hnew
    · exact h.armed other hold hpending
    · rw [List.mem_singleton.mp hnew] at hpending
      simp [QueuedInvocation.isDue, hnow] at hpending

/-- Routing with a delay: everybody hears of it, unless a search has just passed the queue. -/
theorem Alert.routeAfter (h : s.Alert workers) (item : QueuedInvocation)
    (hnoticed : item.isDue s.now = true → s.Noticed workers True item) :
    { s with broker := s.broker.push item, alls := s.alls + 1 }.Alert workers where
  heeded := by
    intro other hother hdue hsome
    rcases List.mem_append.mp hother with hold | hnew
    · refine (h.heeded other hold hdue hsome).imp_right (Or.imp_right ?_)
      rintro ⟨i, haccepts, hattends⟩
      exact ⟨i, haccepts, hattends.mono fun _ => Nat.succ_pos _⟩
    · cases List.mem_singleton.mp hnew
      refine (hnoticed hdue hsome).imp_right (Or.imp_right ?_)
      rintro ⟨i, haccepts, hbetween⟩
      refine ⟨i, haccepts, ?_⟩
      have hattends := (WorkerPhase.attentive_or_between_of trivial _ _).resolve_right hbetween
      exact hattends.mono fun _ => Nat.succ_pos _
  unblocked := h.unblocked
  armed := fun other _ _ i => WorkerPhase.attentive_or_between_of (Nat.succ_pos _) other (s.phases i)

/-- Time passes: who waits for an entry to become due has a timer. -/
theorem Alert.tick (h : s.Alert workers) {later : Timestamp} (hle : s.now ≤ later)
    (hnoticed : ∀ item ∈ s.broker.queue, item.isDue s.now = false → item.isDue later = true →
      s.Noticed workers (0 < s.alls) item) :
    { s with now := later }.Alert workers where
  heeded := by
    intro item hitem hdue hsome
    cases hwas : item.isDue s.now with
    | true => exact h.heeded item hitem hwas hsome
    | false =>
        refine (hnoticed item hitem hwas hdue hsome).imp_right (Or.imp_right ?_)
        rintro ⟨i, haccepts, hbetween⟩
        exact ⟨i, haccepts, (h.armed item hitem hwas i).resolve_right hbetween⟩
  unblocked := h.unblocked
  armed := by
    intro item hitem hpending
    refine h.armed item hitem ?_
    cases hwas : item.isDue s.now with
    | false => rfl
    | true =>
        rw [QueuedInvocation.isDue_later hle hwas] at hpending
        cases hpending

/-- **The step lemma.** -/
theorem Alert.step [DecidableEq ι] {s s' : Crew ι} {move : Move ι} (h : s.Alert workers)
    (hstep : Step workers s move s') (horderly : s.Orderly workers move) : s'.Alert workers := by
  cases hstep with
  | search hphase horder => exact h.search horder
  | retrieve hphase hresult => exact h.retrieve hphase hresult
  | waitForWork hphase => exact h.waitForWork hphase
  | wait hphase hstep => exact h.wait hphase hstep
  | takePermit hphase hpermit =>
      exact h.takeNotification horderly (fun hfree => by cases hfree) (fun _ => trivial)
        fun hblocked => hblocked
  | route hresult =>
      unfold MemBroker.routeInvocationWithOptions at hresult
      split at hresult
      · cases hresult
      · cases hresult
        exact h.route _ rfl
  | @routeAfter id taskId queueName priority delay broker hresult =>
      unfold MemBroker.routeInvocationAfter at hresult
      split at hresult
      · cases hresult
      · cases hresult
        refine h.routeAfter _ ?_
        intro hdue
        have hdelay : ∀ now : Int, now + delay ≤ now → delay = 0 := by
          intro now hle
          omega
        have hzero : delay = 0 := hdelay s.now (of_decide_eq_true hdue)
        have hnoticed := horderly hzero
        subst hzero
        simpa using hnoticed
  | wakeOne hones hphase =>
      rename_i i due ones
      have huseful : s.Useful workers i ones := by
        have huseful : s.Useful workers i (s.ones - 1) := horderly
        rwa [hones] at huseful
      exact h.takeNotification huseful (fun hfree => hfree) (fun _ => trivial)
        fun hblocked => hblocked
  | storePermit hones hnobody => exact h.storePermit _ hnobody
  | notifyWaiters halls => exact h.notifyWaiters _
  | tick hle => exact h.tick hle horderly

/-- **The run lemma.** -/
theorem Alert.run [DecidableEq ι] {s s' : Crew ι} (h : s.Alert workers)
    (hrun : OrderlyRun workers s s') : s'.Alert workers := by
  induction hrun with
  | refl => exact h
  | tail _ hlast ih =>
      obtain ⟨move, hstep, horderly⟩ := hlast
      exact ih.step hstep horderly

end Crew

/-! ## No lost wakeup -/

open Crew in
/-- **No wakeup is lost in orderly runs.**  Whatever the workers, a run from a fresh broker
in which notifications go to workers that can use them, and in which no entry becomes due while
all who accept it are between retrieving and reading the clock, never reaches a state where a
due entry waits for blocked workers only. -/
theorem lostWakeup_free [DecidableEq ι] (workers : ι → WorkerScope) {s₀ s : Crew ι}
    (hfresh : s₀.Fresh) (hrun : OrderlyRun workers s₀ s) : ¬s.Lost workers :=
  ((hfresh.alert workers).run hrun).not_lost

/-! ## An entry that becomes due at the wrong moment -/

/-- A worker for Rust tasks of the default queue. -/
def defaultScope : WorkerScope :=
  ⟨.rust, ["default"]⟩

/-- Before anything happened. -/
def freshCrew (ι : Type) : Crew ι where
  now := 0
  broker := ⟨[]⟩
  permit := false
  phases := fun _ => .awake
  ones := 0
  alls := 0

theorem freshCrew_fresh (ι : Type) : (freshCrew ι).Fresh :=
  ⟨rfl, rfl, fun _ => rfl, rfl, rfl⟩

namespace Crew

variable {ι : Type} [DecidableEq ι] {workers : ι → WorkerScope} (s : Crew ι) (i : ι)

theorem moved_moved (phase phase' : WorkerPhase) :
    (s.moved i phase).moved i phase' = s.moved i phase' := by
  simp only [moved, Function.update_idem]

@[simp] theorem moved_self (s : Crew ι) (i : ι) (phase : WorkerPhase) :
    (s.moved i phase).phases i = phase := by
  simp only [moved, Function.update_self]

theorem OrderlyRun.run {s s' : Crew ι} (hrun : OrderlyRun workers s s') :
    Run workers s s' := by
  induction hrun with
  | refl => exact Relation.ReflTransGen.refl
  | tail _ hlast ih =>
      obtain ⟨move, hstep, _⟩ := hlast
      exact ih.tail ⟨move, hstep⟩

theorem step_waitForWork :
    Step workers (s.moved i (.searching [])) (.waitForWork i)
      (s.moved i (.waiting (.created false))) := by
  have hstep : Step workers (s.moved i (.searching [])) (.waitForWork i)
      ((s.moved i (.searching [])).moved i (.waiting (.created false))) :=
    .waitForWork (moved_self s i _)
  rwa [moved_moved] at hstep

theorem step_wait {wait : Wait} {next : Option Wait}
    (hwait : wait.Step s.broker.queue s.now s.permit next) :
    Step workers (s.moved i (.waiting wait)) (.wait i)
      (s.moved i (next.elim .awake .waiting)) := by
  have hstep : Step workers (s.moved i (.waiting wait)) (.wait i)
      ((s.moved i (.waiting wait)).moved i (next.elim .awake .waiting)) :=
    .wait (moved_self s i _) hwait
  rwa [moved_moved] at hstep

/-- A search that finds nothing comes to its end. -/
theorem run_searched {rest : List String}
    (hnone : ∀ queueName ∈ rest, s.broker.retrieveInvocationForLanguageFromQueue s.now
      (workers i).language queueName = (.ok none, s.broker)) :
    OrderlyRun workers (s.moved i (.searching rest)) (s.moved i (.searching [])) := by
  induction rest with
  | nil => exact Relation.ReflTransGen.refl
  | cons queueName rest ih =>
      have hstep : Step workers (s.moved i (.searching (queueName :: rest))) (.retrieve i)
          ((s.moved i (.searching (queueName :: rest))).moved i (.searching rest)) :=
        .retrieve (moved_self s i _) (hnone queueName (List.mem_cons_self ..))
      rw [moved_moved] at hstep
      exact Relation.ReflTransGen.head ⟨_, hstep, trivial⟩
        (ih fun name hname => hnone name (List.mem_cons_of_mem _ hname))

/-- A worker for whom nothing is due, where no entry is delayed, blocks without a timer. -/
theorem run_blocked (hawake : s.phases i = .awake)
    (hnone : ∀ queueName ∈ (workers i).queues, s.broker.retrieveInvocationForLanguageFromQueue
      s.now (workers i).language queueName = (.ok none, s.broker))
    (hnothing : nextDue s.broker.queue s.now = none) (hpermit : s.permit = false) :
    OrderlyRun workers s (s.moved i (.waiting (.blocked none))) := by
  have hsearch : Step workers s (.search i (workers i).queues)
      (s.moved i (.searching (workers i).queues)) := .search hawake (List.Perm.refl _)
  have hlook : Wait.Step s.broker.queue s.now s.permit (.created false)
      (some (.looked false none)) := hnothing ▸ .look
  have hblock : Wait.Step s.broker.queue s.now s.permit (.looked false none)
      (some (.blocked none)) := .block hpermit fun _ hinstant => by cases hinstant
  exact ((((Relation.ReflTransGen.single ⟨_, hsearch, trivial⟩).trans
    (run_searched s i hnone)).tail ⟨_, step_waitForWork s i, trivial⟩).tail
    ⟨_, step_wait s i hlook, trivial⟩).tail ⟨_, step_wait s i hblock, trivial⟩

end Crew

theorem validateRouting_default : validateRouting "default" (.finite 0) = .ok () :=
  (validateRouting_ok_iff _ _).mpr ⟨by decide, by decide⟩

/-- An empty broker has nothing to retrieve. -/
theorem retrieve_empty (now : Timestamp) (language : TaskLanguage) :
    ∀ queueName ∈ ["default"], (MemBroker.mk []).retrieveInvocationForLanguageFromQueue now
      language queueName = (.ok none, ⟨[]⟩) := by
  intro queueName hqueue
  rw [List.mem_singleton.mp hqueue]
  simp only [MemBroker.retrieveInvocationForLanguageFromQueue, validateRouting_default]
  rfl

/-- An entry of the default queue for Rust workers, due from `notBefore` on. -/
def rustEntry (notBefore : Option Timestamp) : QueuedInvocation :=
  ⟨⟨"i"⟩, none, "default", .finite 0, notBefore⟩

theorem route_rustEntry : (MemBroker.mk []).routeInvocationWithOptions ⟨"i"⟩ none "default"
    (.finite 0) = (.ok (), ⟨[rustEntry none]⟩) := by
  simp only [MemBroker.routeInvocationWithOptions, validateRouting_default]
  rfl

open Crew in
/-- A blocked worker is woken for the entry that is routed. -/
theorem lostWakeup_free_woken : ∃ s : Crew Unit,
    OrderlyRun (fun _ => defaultScope) (freshCrew Unit) s ∧
      s.broker.queue = [rustEntry none] ∧ s.phases () = .waiting .woken ∧
      ¬s.Lost fun _ => defaultScope := by
  let workers : Unit → WorkerScope := fun _ => defaultScope
  let blocked : Crew Unit := (freshCrew Unit).moved () (.waiting (.blocked none))
  let routed : Crew Unit := { blocked with broker := ⟨[rustEntry none]⟩, ones := 1 }
  let notified : Crew Unit := { routed with ones := 0 }.moved () (.waiting .woken)
  have hblocked : OrderlyRun workers (freshCrew Unit) blocked :=
    run_blocked (freshCrew Unit) () rfl (retrieve_empty 0 .rust) rfl rfl
  have hroute : Step workers blocked (.route ⟨"i"⟩ none "default" (.finite 0)) routed :=
    .route route_rustEntry
  have hphase : routed.phases () = .waiting (.blocked none) := rfl
  have hwake : Step workers routed (.notifyOne (some ())) notified := .wakeOne rfl hphase
  have huseful : routed.Orderly workers (.notifyOne (some ())) := by
    rintro item _ _ ⟨_, haccepts⟩
    exact .inr (.inl haccepts)
  have hrun : OrderlyRun workers (freshCrew Unit) notified :=
    (hblocked.tail ⟨_, hroute, trivial⟩).tail ⟨_, hwake, huseful⟩
  exact ⟨notified, hrun, rfl, rfl, lostWakeup_free workers (freshCrew_fresh Unit) hrun⟩

open Crew in
/-- The delayed entry is routed and not due at the retrieval; it becomes due before the clock
is read in `wait_for_work`, so no timer is armed for it. -/
theorem lost_at_due : ∃ s : Crew Unit, Run (fun _ => defaultScope) (freshCrew Unit) s ∧
    s.Lost fun _ => defaultScope := by
  let workers : Unit → WorkerScope := fun _ => defaultScope
  let routed : Crew Unit := { freshCrew Unit with broker := ⟨[rustEntry (some 5)]⟩, alls := 1 }
  let told : Crew Unit := { routed with alls := 0 }
  let late : Crew Unit := { told with now := 5 }
  have hrouted : (MemBroker.mk []).routeInvocationAfter 0 ⟨"i"⟩ none "default" (.finite 0) 5 =
      (.ok (), ⟨[rustEntry (some 5)]⟩) := by
    simp only [MemBroker.routeInvocationAfter, validateRouting_default]
    rfl
  have hroute : Step workers (freshCrew Unit) (.routeAfter ⟨"i"⟩ none "default" (.finite 0) 5)
      routed := .routeAfter hrouted
  have hnotify : Step workers routed .notifyWaiters told := .notifyWaiters rfl
  have hsearch : Step workers told (.search () ["default"])
      (told.moved () (.searching ["default"])) := .search rfl (List.Perm.refl _)
  have hsearched : Run workers (told.moved () (.searching ["default"]))
      (told.moved () (.searching [])) := by
    refine (run_searched told () ?_).run
    intro queueName hqueue
    rw [List.mem_singleton.mp hqueue]
    simp only [MemBroker.retrieveInvocationForLanguageFromQueue, validateRouting_default]
    rfl
  have htick : Step workers (told.moved () (.waiting (.created false))) (.tick 5)
      (late.moved () (.waiting (.created false))) := .tick (by decide)
  have hlook : Step workers (late.moved () (.waiting (.created false))) (.wait ())
      (late.moved () (.waiting (.looked false none))) := step_wait late () .look
  have hblock : Step workers (late.moved () (.waiting (.looked false none))) (.wait ())
      (late.moved () (.waiting (.blocked none))) :=
    step_wait late () (.block rfl fun _ hinstant => by cases hinstant)
  refine ⟨late.moved () (.waiting (.blocked none)), ?_, ?_⟩
  · exact (((((((Relation.ReflTransGen.single ⟨_, hroute⟩).tail ⟨_, hnotify⟩).tail
      ⟨_, hsearch⟩).trans hsearched).tail ⟨_, step_waitForWork told ()⟩).tail ⟨_, htick⟩).tail ⟨_, hlook⟩).tail
      ⟨_, hblock⟩
  · exact ⟨rfl, rfl, rustEntry (some 5), List.mem_cons_self .., rfl,
      ⟨(), List.mem_cons_self .., rfl⟩, fun _ _ => rfl⟩

/-- A worker for Rust tasks and one for Python tasks. -/
def twoLanguages : Bool → WorkerScope
  | true => defaultScope
  | false => ⟨.python, ["default"]⟩

open Crew in
/-- Both workers are blocked when an entry for the Rust worker is routed, and the notification
goes to the Python worker, which finds nothing and blocks again. -/
theorem lost_to_other : ∃ s : Crew Bool, Run twoLanguages (freshCrew Bool) s ∧
    s.Lost twoLanguages := by
  let blocked : WorkerPhase := .waiting (.blocked none)
  let one : Crew Bool := (freshCrew Bool).moved true blocked
  let both : Crew Bool := one.moved false blocked
  let routed : Crew Bool := { both with broker := ⟨[rustEntry none]⟩, ones := 1 }
  let woken : Crew Bool := { routed with ones := 0 }
  have hone : Run twoLanguages (freshCrew Bool) one :=
    (run_blocked (freshCrew Bool) true rfl (retrieve_empty 0 .rust) rfl rfl).run
  have hboth : Run twoLanguages one both :=
    (run_blocked one false rfl (retrieve_empty 0 .python) rfl rfl).run
  have hroute : Step twoLanguages both (.route ⟨"i"⟩ none "default" (.finite 0)) routed :=
    .route route_rustEntry
  have hphase : routed.phases false = .waiting (.blocked none) := rfl
  have hwake : Step twoLanguages routed (.notifyOne (some false))
      (woken.moved false (.waiting .woken)) := .wakeOne rfl hphase
  have hresume : Step twoLanguages (woken.moved false (.waiting .woken)) (.wait false)
      (woken.moved false .awake) := step_wait woken false .resume
  have hagain : Run twoLanguages (woken.moved false .awake) (woken.moved false blocked) := by
    rw [← moved_moved woken false .awake blocked]
    refine (run_blocked (woken.moved false .awake) false (moved_self ..) ?_ rfl rfl).run
    intro queueName hqueue
    rw [List.mem_singleton.mp hqueue]
    simp only [MemBroker.retrieveInvocationForLanguageFromQueue, validateRouting_default]
    rfl
  refine ⟨woken.moved false blocked, ?_, rfl, rfl, rustEntry none, List.mem_cons_self .., rfl,
    ⟨true, List.mem_cons_self .., rfl⟩, ?_⟩
  · exact ((((hone.trans hboth).tail ⟨_, hroute⟩).tail ⟨_, hwake⟩).tail ⟨_, hresume⟩).trans hagain
  · rintro (_ | _) ⟨_, hlanguage⟩
    · cases hlanguage
    · rfl

open Crew in
/-- **Wakeups are lost** to an entry that becomes due unnoticed, and to a worker that cannot
take the entry. -/
theorem lostWakeup_possible :
    (¬∀ s₀ s : Crew Unit, s₀.Fresh → Run (fun _ => defaultScope) s₀ s →
      ¬s.Lost fun _ => defaultScope) ∧
    ¬∀ s₀ s : Crew Bool, s₀.Fresh → Run twoLanguages s₀ s → ¬s.Lost twoLanguages := by
  constructor
  · intro hclaim
    obtain ⟨s, hrun, hlost⟩ := lost_at_due
    exact hclaim _ s (freshCrew_fresh Unit) hrun hlost
  · intro hclaim
    obtain ⟨s, hrun, hlost⟩ := lost_to_other
    exact hclaim _ s (freshCrew_fresh Bool) hrun hlost

end Rustvello.Mem
