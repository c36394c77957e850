import Rustvello.Core.Error

/-!
# The in-memory broker

`MemBroker` (`rustvello-mem/src/broker.rs`): one queue of entries with their task,
logical queue, priority and, for delayed delivery, the instant from which they are
visible.  Retrieval takes the entry of highest priority, the oldest among equals.
-/

namespace Rustvello.Mem

open Proto Rustvello.Core

structure QueuedInvocation where
  invocationId : InvocationId
  taskId : Option TaskId
  queueName : String
  priority : F64
  /-- Delayed delivery: invisible to retrieval before this instant. -/
  notBefore : Option Timestamp
deriving DecidableEq

def QueuedInvocation.isDue (item : QueuedInvocation) (now : Timestamp) : Bool :=
  item.notBefore.all fun instant => instant ≤ now

/-- The in-memory broker, oldest entry first. -/
structure MemBroker where
  queue : List QueuedInvocation := []

namespace MemBroker

/-- Some entry of the queue is for this invocation. -/
def Queued (b : MemBroker) (id : InvocationId) : Prop :=
  ∃ item ∈ b.queue, item.invocationId = id

instance (b : MemBroker) (id : InvocationId) : Decidable (b.Queued id) :=
  inferInstanceAs (Decidable (∃ item ∈ b.queue, item.invocationId = id))

def push (b : MemBroker) (item : QueuedInvocation) : MemBroker :=
  ⟨b.queue ++ [item]⟩

def routeInvocationWithOptions (b : MemBroker) (id : InvocationId) (taskId : Option TaskId)
    (queueName : String) (priority : F64) : RustvelloResult Unit × MemBroker :=
  match validateRouting queueName priority with
  | .error e => (.error e, b)
  | .ok _ => (.ok (), b.push ⟨id, taskId, queueName, priority, none⟩)

/-- Nanoseconds of a delay in milliseconds. -/
def nanoseconds (delayMs : Nat) : Nat :=
  delayMs * 1000000

/-- The delay is a `Duration`, in nanoseconds. -/
def routeInvocationAfter (b : MemBroker) (now : Timestamp) (id : InvocationId)
    (taskId : Option TaskId) (queueName : String) (priority : F64) (delay : Nat) :
    RustvelloResult Unit × MemBroker :=
  match validateRouting queueName priority with
  | .error e => (.error e, b)
  | .ok _ => (.ok (), b.push ⟨id, taskId, queueName, priority, some (now + delay)⟩)

/-- Position of the entry of highest priority among the selected ones, the oldest
among equals. -/
def selectIndex (selected : QueuedInvocation → Bool) :
    List QueuedInvocation → Option (Nat × QueuedInvocation)
  | [] => none
  | item :: rest =>
      let later := (selectIndex selected rest).map fun found => (found.1 + 1, found.2)
      if selected item then
        match later with
        | none => some (0, item)
        | some found =>
            if found.2.priority.totalLe item.priority then some (0, item) else some found
      else later

/-- An entry without a task is for Rust workers. -/
def forLanguage (language : TaskLanguage) (item : QueuedInvocation) : Bool :=
  match item.taskId with
  | none => decide (language = .rust)
  | some taskId => decide (taskId.language = language)

def retrieveInvocationForLanguageFromQueue (b : MemBroker) (now : Timestamp)
    (language : TaskLanguage) (queueName : String) :
    RustvelloResult (Option InvocationId) × MemBroker :=
  match validateRouting queueName (.finite 0) with
  | .error e => (.error e, b)
  | .ok _ =>
      match selectIndex (fun item => decide (item.queueName = queueName) && item.isDue now &&
          forLanguage language item) b.queue with
      | none => (.ok none, b)
      | some found => (.ok (some found.2.invocationId), ⟨b.queue.eraseIdx found.1⟩)

def retrieveInvocationFromQueue (b : MemBroker) (now : Timestamp) (queueName : String)
    (taskId : Option TaskId) : RustvelloResult (Option InvocationId) × MemBroker :=
  match validateRouting queueName (.finite 0) with
  | .error e => (.error e, b)
  | .ok _ =>
      match selectIndex (fun item => decide (item.queueName = queueName) && item.isDue now &&
          taskId.all fun taskId => decide (item.taskId = some taskId)) b.queue with
      | none => (.ok none, b)
      | some found => (.ok (some found.2.invocationId), ⟨b.queue.eraseIdx found.1⟩)

def purge (b : MemBroker) : Option TaskId → MemBroker
  | some taskId => ⟨b.queue.filter fun item => !decide (item.taskId = some taskId)⟩
  | none => ⟨[]⟩

/-! ## What the methods do -/

theorem selectIndex_get {selected : QueuedInvocation → Bool} {queue : List QueuedInvocation}
    {found : Nat × QueuedInvocation} (h : selectIndex selected queue = some found) :
    queue[found.1]? = some found.2 := by
  induction queue generalizing found with
  | nil => simp [selectIndex] at h
  | cons item rest ih =>
      have hlater : ∀ found, (selectIndex selected rest).map
          (fun found => (found.1 + 1, found.2)) = some found →
          (item :: rest)[found.1]? = some found.2 := by
        rintro found hfound
        obtain ⟨inner, hinner, rfl⟩ := Option.map_eq_some_iff.mp hfound
        simpa using ih hinner
      simp only [selectIndex] at h
      split at h
      · split at h
        · cases h
          rfl
        · rename_i later hsome
          split at h
          · cases h
            rfl
          · cases h
            exact hlater _ hsome
      · exact hlater _ h

variable (b : MemBroker) {queueName : String} {priority : F64}

theorem queued_push_iff (item : QueuedInvocation) (id : InvocationId) :
    (b.push item).Queued id ↔ b.Queued id ∨ item.invocationId = id := by
  simp [Queued, push, or_and_right, exists_or]

/-- Routing with valid values queues the invocation and keeps every entry. -/
theorem queued_routeInvocationWithOptions (id : InvocationId) (taskId : Option TaskId)
    (hvalid : validateRouting queueName priority = .ok ()) (x : InvocationId) :
    (b.routeInvocationWithOptions id taskId queueName priority).2.Queued x ↔
      b.Queued x ∨ id = x := by
  simp only [routeInvocationWithOptions, hvalid]
  exact queued_push_iff b _ x

theorem queued_routeInvocationAfter (now : Timestamp) (id : InvocationId) (taskId : Option TaskId)
    (delay : Nat) (hvalid : validateRouting queueName priority = .ok ()) (x : InvocationId) :
    (b.routeInvocationAfter now id taskId queueName priority delay).2.Queued x ↔
      b.Queued x ∨ id = x := by
  simp only [routeInvocationAfter, hvalid]
  exact queued_push_iff b _ x

/-- Routing queues nothing but its invocation. -/
theorem queued_of_routeInvocationWithOptions {id x : InvocationId} {taskId : Option TaskId}
    (h : (b.routeInvocationWithOptions id taskId queueName priority).2.Queued x) :
    b.Queued x ∨ id = x := by
  unfold routeInvocationWithOptions at h
  split at h
  · exact .inl h
  · exact (queued_push_iff b _ x).mp h

theorem queued_of_routeInvocationAfter {now : Timestamp} {id x : InvocationId}
    {taskId : Option TaskId} {delay : Nat}
    (h : (b.routeInvocationAfter now id taskId queueName priority delay).2.Queued x) :
    b.Queued x ∨ id = x := by
  unfold routeInvocationAfter at h
  split at h
  · exact .inl h
  · exact (queued_push_iff b _ x).mp h

/-- **What a retrieval can do.**  It fails or finds nothing and changes nothing, or
it takes one entry out: every other invocation keeps its entries. -/
theorem retrieve_cases (now : Timestamp) (language : TaskLanguage) (queueName : String) :
    (∃ e, b.retrieveInvocationForLanguageFromQueue now language queueName = (.error e, b)) ∨
    b.retrieveInvocationForLanguageFromQueue now language queueName = (.ok none, b) ∨
    (∃ id b', b.retrieveInvocationForLanguageFromQueue now language queueName =
        (.ok (some id), b') ∧ b.Queued id ∧
      (∀ x, x ≠ id → b.Queued x → b'.Queued x) ∧ (∀ x, b'.Queued x → b.Queued x)) := by
  unfold retrieveInvocationForLanguageFromQueue
  split
  · rename_i e _
    exact .inl ⟨e, rfl⟩
  · split
    · exact .inr (.inl rfl)
    · rename_i found hfound
      have hget := selectIndex_get hfound
      refine .inr (.inr ⟨_, _, rfl, ⟨found.2, List.mem_of_getElem? hget, rfl⟩, ?_, ?_⟩)
      · rintro x hne ⟨item, hitem, rfl⟩
        refine ⟨item, ?_, rfl⟩
        obtain ⟨i, hi⟩ := List.mem_iff_getElem?.mp hitem
        refine List.mem_eraseIdx_iff_getElem?.mpr ⟨i, ?_, hi⟩
        rintro rfl
        rw [hget] at hi
        exact hne (congrArg QueuedInvocation.invocationId (Option.some.inj hi)).symm
      · rintro x ⟨item, hitem, hx⟩
        exact ⟨item, List.mem_of_mem_eraseIdx hitem, hx⟩

end MemBroker

end Rustvello.Mem
