import Rustvello.Mem.Broker

/-!
# Waiting for work

`MemBroker::wait_for_work` (`rustvello-mem/src/broker.rs`): a call creates a `Notified` future,
reads the clock and the queue for the earliest instant at which a delayed entry becomes due,
and blocks until it is notified or that instant is there.  These are steps of their own:
anything may happen between them.

* `nextDue` — the instant that the timer is armed for;
* `Wait` — where a call stands, `Wait.Step` — what it can do by itself;
* `Wait.notifyWaiters` — what a `notify_waiters` does to it.
-/

namespace Rustvello.Mem

open Proto Rustvello.Core

/-- The earliest instant, later than now, at which an entry becomes due. -/
def nextDue (queue : List QueuedInvocation) (now : Timestamp) : Option Timestamp :=
  ((queue.filterMap fun item => item.notBefore).filter fun instant => now < instant).min?

variable {item : QueuedInvocation} {queue : List QueuedInvocation}

/-- An entry that is not due yet has an instant that is still to come. -/
theorem QueuedInvocation.isDue_eq_false {now : Timestamp} :
    item.isDue now = false ↔ ∃ instant, item.notBefore = some instant ∧ now < instant := by
  unfold QueuedInvocation.isDue
  cases item.notBefore with
  | none => simp
  | some instant => simp

theorem QueuedInvocation.isDue_later {now later : Timestamp} (hle : now ≤ later)
    (hdue : item.isDue now = true) : item.isDue later = true := by
  unfold QueuedInvocation.isDue at hdue ⊢
  cases hat : item.notBefore with
  | none => rfl
  | some instant =>
      rw [hat] at hdue
      exact decide_eq_true (Int.le_trans (of_decide_eq_true hdue) hle)

/-- While an entry is not due, a call that reads the queue arms its timer. -/
theorem nextDue_isSome {now : Timestamp} (hitem : item ∈ queue) (hdue : item.isDue now = false) :
    (nextDue queue now).isSome = true := by
  obtain ⟨instant, hat, hlater⟩ := QueuedInvocation.isDue_eq_false.mp hdue
  have hmem : instant ∈ (queue.filterMap fun item => item.notBefore).filter
      fun instant => now < instant :=
    List.mem_filter.mpr ⟨List.mem_filterMap.mpr ⟨item, hitem, hat⟩, decide_eq_true hlater⟩
  unfold nextDue
  rw [Option.isSome_iff_ne_none]
  intro hnone
  rw [List.min?_eq_none_iff.mp hnone] at hmem
  cases hmem

/-- The timer is armed for an instant to come. -/
theorem lt_of_nextDue {now instant : Timestamp}
    (h : nextDue queue now = some instant) : now < instant :=
  of_decide_eq_true (List.mem_filter.mp (List.min?_mem h)).2

/-- Where a call of `wait_for_work` stands. -/
inductive Wait where
  /-- The `Notified` future is there; a `notify_waiters` since then will be noticed. -/
  | created (called : Bool)
  /-- The queue was read, the future was not polled yet. -/
  | looked (called : Bool) (due : Option Timestamp)
  /-- The future is in the line of waiters, the timer is armed for `due`. -/
  | blocked (due : Option Timestamp)
  /-- A notification was delivered. -/
  | woken
deriving DecidableEq

namespace Wait

/-- `notify_waiters` reaches every future that was created. -/
def notifyWaiters : Wait → Wait
  | created _ => created true
  | looked _ due => looked true due
  | blocked _ => woken
  | woken => woken

/-- The call is in the line that `notify_one` takes a waiter from. -/
def Blocked : Wait → Prop
  | blocked _ => True
  | _ => False

/-- What a call does by itself, apart from taking a stored permit; `none` is its return. -/
inductive Step (queue : List QueuedInvocation) (now : Timestamp) (permit : Bool) :
    Wait → Option Wait → Prop
  | look {called : Bool} :
      Step queue now permit (created called) (some (looked called (nextDue queue now)))
  | called {due : Option Timestamp} : Step queue now permit (looked true due) none
  | elapsed {called : Bool} {instant : Timestamp} (hpast : instant ≤ now) :
      Step queue now permit (looked called (some instant)) none
  | block {due : Option Timestamp} (hpermit : permit = false)
      (hlater : ∀ instant ∈ due, now < instant) :
      Step queue now permit (looked false due) (some (blocked due))
  | timer {instant : Timestamp} (hpast : instant ≤ now) :
      Step queue now permit (blocked (some instant)) none
  | resume : Step queue now permit woken none

end Wait

end Rustvello.Mem
