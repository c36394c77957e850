import Rustvello.Mem.Broker
import Mathlib.Data.List.Perm.Basic
import Mathlib.Data.List.Range

/-!
# What becomes of routed entries

A journal numbers the routed entries and notes for each of them where it is: queued,
returned by a retrieval, or purged.  Every call of the in-memory broker is a step of the
journal, so the order of delivery and the conservation of entries are read off it.

* `selectIndex_spec` — the position the broker removes;
* `BrokerCall`, `MemBroker.answer`, `MemBroker.run` — sequences of calls;
* `Ticket`, `Journal`, `Journal.Step` — the abstract queue: a retrieval takes the first
  routed of the matching entries of greatest priority, and nothing else moves;
* `Journal.Accounted` — every routed entry is in exactly one place;
* `run_journal` — every sequence of calls on a fresh broker has such a journal.
-/

namespace Rustvello.Mem

open Proto Rustvello.Core

/-! ## The selected position -/

namespace MemBroker

/-- Nothing is selected exactly when no entry matches. -/
theorem selectIndex_eq_none (selected : QueuedInvocation → Bool) (queue : List QueuedInvocation) :
    selectIndex selected queue = none ↔ ∀ item ∈ queue, selected item = false := by
  induction queue with
  | nil => simp [selectIndex]
  | cons item rest ih =>
      simp only [selectIndex, List.forall_mem_cons]
      by_cases hitem : selected item = true
      · rw [if_pos hitem]
        constructor
        · intro h
          split at h
          · cases h
          · split at h <;> cases h
        · rintro ⟨hfalse, _⟩
          rw [hfalse] at hitem
          cases hitem
      · rw [if_neg hitem, Option.map_eq_none_iff, ih]
        simp [hitem]

/-- The selected entry outranks every matching entry before it, and no matching entry
after it outranks it. -/
theorem selectIndex_spec {selected : QueuedInvocation → Bool} {queue : List QueuedInvocation}
    {found : Nat × QueuedInvocation} (h : selectIndex selected queue = some found) :
    ∃ before after, queue = before ++ found.2 :: after ∧ before.length = found.1 ∧
      selected found.2 = true ∧
      (∀ item ∈ before, selected item = true →
        found.2.priority.totalLe item.priority = false) ∧
      ∀ item ∈ after, selected item = true → item.priority.totalLe found.2.priority = true := by
  induction queue generalizing found with
  | nil => simp [selectIndex] at h
  | cons item rest ih =>
      have hlater : ∀ {found : Nat × QueuedInvocation}, (selectIndex selected rest).map
          (fun found => (found.1 + 1, found.2)) = some found →
          (selected item = true → found.2.priority.totalLe item.priority = false) →
          ∃ before after, item :: rest = before ++ found.2 :: after ∧ before.length = found.1 ∧
            selected found.2 = true ∧
            (∀ x ∈ before, selected x = true → found.2.priority.totalLe x.priority = false) ∧
            ∀ x ∈ after, selected x = true → x.priority.totalLe found.2.priority = true := by
        intro found hfound hitem
        obtain ⟨inner, hinner, rfl⟩ := Option.map_eq_some_iff.mp hfound
        obtain ⟨before, after, hsplit, hlength, hsel, hbefore, hafter⟩ := ih hinner
        refine ⟨item :: before, after, by simp [hsplit], by simp [hlength], hsel, ?_, hafter⟩
        exact List.forall_mem_cons.mpr ⟨hitem, hbefore⟩
      simp only [selectIndex] at h
      split at h
      · rename_i hitem
        split at h
        · rename_i hnone
          cases h
          have hrest := (selectIndex_eq_none selected rest).mp (Option.map_eq_none_iff.mp hnone)
          refine ⟨[], rest, rfl, rfl, hitem, by simp, ?_⟩
          intro x hx hsel
          rw [hrest x hx] at hsel
          cases hsel
        · rename_i later hsome
          split at h
          · rename_i hle
            cases h
            refine ⟨[], rest, rfl, rfl, hitem, by simp, ?_⟩
            obtain ⟨inner, hinner, rfl⟩ := Option.map_eq_some_iff.mp hsome
            obtain ⟨before, after, rfl, _, _, hbefore, hafter⟩ := ih hinner
            -- what the later winner outranks, the first entry outranks
            intro x hx hsel
            rcases List.mem_append.mp hx with hx | hx
            · have hnot := hbefore x hx hsel
              have hxle := (F64.totalLe_total x.priority inner.2.priority).resolve_right
                (by simp [hnot])
              exact F64.totalLe_trans hxle hle
            · rcases List.mem_cons.mp hx with rfl | hx
              · exact hle
              · exact F64.totalLe_trans (hafter x hx hsel) hle
          · rename_i hle
            cases h
            exact hlater hsome fun _ => by simpa using hle
      · rename_i hitem
        exact hlater h fun hsel => absurd hsel hitem

end MemBroker

/-! ## Calls -/

inductive BrokerCall where
  | routeInvocationWithOptions (id : InvocationId) (taskId : Option TaskId) (queueName : String)
      (priority : F64)
  | routeInvocationAfter (id : InvocationId) (taskId : Option TaskId) (queueName : String)
      (priority : F64) (delay : Nat)
  | retrieveInvocationFromQueue (queueName : String) (taskId : Option TaskId)
  | retrieveInvocationForLanguageFromQueue (language : TaskLanguage) (queueName : String)
  | purge (taskId : Option TaskId)
deriving DecidableEq

namespace BrokerCall

/-- The entry that a routing call made at `now` asks for. -/
def entry? (now : Timestamp) : BrokerCall → Option QueuedInvocation
  | routeInvocationWithOptions id taskId queueName priority =>
      some ⟨id, taskId, queueName, priority, none⟩
  | routeInvocationAfter id taskId queueName priority delay =>
      some ⟨id, taskId, queueName, priority, some (now + delay)⟩
  | _ => none

/-- The queue that a retrieval asks for. -/
def source? : BrokerCall → Option String
  | retrieveInvocationFromQueue queueName _ => some queueName
  | retrieveInvocationForLanguageFromQueue _ queueName => some queueName
  | _ => none

/-- The task or language filter of a retrieval. -/
def accepts : BrokerCall → QueuedInvocation → Prop
  | retrieveInvocationFromQueue _ taskId, item => ∀ task ∈ taskId, item.taskId = some task
  | retrieveInvocationForLanguageFromQueue language _, item =>
      item.taskId.elim (language = .rust) fun task => task.language = language
  | _, _ => False

/-- The entry is in the queue that is asked for, due, and passes the filter. -/
def Wants (now : Timestamp) (call : BrokerCall) (item : QueuedInvocation) : Prop :=
  item.queueName ∈ call.source? ∧ (∀ instant ∈ item.notBefore, instant ≤ now) ∧ call.accepts item

/-- What is asked of a purge. -/
def Purges : BrokerCall → QueuedInvocation → Prop
  | purge taskId, item => ∀ task ∈ taskId, item.taskId = some task
  | _, _ => False

instance (call : BrokerCall) (item : QueuedInvocation) : Decidable (call.Purges item) :=
  match call with
  | purge taskId => inferInstanceAs (Decidable (∀ task ∈ taskId, item.taskId = some task))
  | routeInvocationWithOptions _ _ _ _ | routeInvocationAfter _ _ _ _ _
  | retrieveInvocationFromQueue _ _ | retrieveInvocationForLanguageFromQueue _ _ =>
      inferInstanceAs (Decidable False)

/-- The queue name and priority a call is checked with. -/
def checked? : BrokerCall → Option (String × F64)
  | routeInvocationWithOptions _ _ queueName priority => some (queueName, priority)
  | routeInvocationAfter _ _ queueName priority _ => some (queueName, priority)
  | retrieveInvocationFromQueue queueName _ => some (queueName, .finite 0)
  | retrieveInvocationForLanguageFromQueue _ queueName => some (queueName, .finite 0)
  | purge _ => none

end BrokerCall

namespace MemBroker

/-- Carry out one call.  Only retrievals return an invocation. -/
def answer (b : MemBroker) (now : Timestamp) :
    BrokerCall → RustvelloResult (Option InvocationId) × MemBroker
  | .routeInvocationWithOptions id taskId queueName priority =>
      let answer := b.routeInvocationWithOptions id taskId queueName priority
      (answer.1.map fun _ => none, answer.2)
  | .routeInvocationAfter id taskId queueName priority delay =>
      let answer := b.routeInvocationAfter now id taskId queueName priority delay
      (answer.1.map fun _ => none, answer.2)
  | .retrieveInvocationFromQueue queueName taskId =>
      b.retrieveInvocationFromQueue now queueName taskId
  | .retrieveInvocationForLanguageFromQueue language queueName =>
      b.retrieveInvocationForLanguageFromQueue now language queueName
  | .purge taskId => (.ok none, b.purge taskId)

/-- The answers to a sequence of calls, each at its own instant, and the broker after
them. -/
def run : MemBroker → List (Timestamp × BrokerCall) →
    List (RustvelloResult (Option InvocationId)) × MemBroker
  | b, [] => ([], b)
  | b, (now, call) :: rest =>
      let first := b.answer now call
      let others := run first.2 rest
      (first.1 :: others.1, others.2)

end MemBroker

/-! ## The journal -/

/-- A routed entry with the number of its routing. -/
structure Ticket where
  number : Nat
  entry : QueuedInvocation

/-- An entry that a call returned. -/
structure Delivery where
  ticket : Ticket
  now : Timestamp
  call : BrokerCall

/-- Everything that was routed, in order, and what became of it. -/
structure Journal where
  routed : List QueuedInvocation := []
  queued : List Ticket := []
  returned : List Delivery := []
  purged : List Ticket := []

/-- A ticket goes out before another: its priority is greater in the order of
`f64::total_cmp`, where `-0.0` comes before `0.0`, or it was routed first among equals. -/
def Ticket.Precedes (t x : Ticket) : Prop :=
  x.entry.priority.totalLe t.entry.priority = true ∧
    (t.entry.priority.totalLe x.entry.priority = true → t.number < x.number)

namespace Journal

/-- **One call on the abstract queue**, with its answer. -/
inductive Step (now : Timestamp) (call : BrokerCall) (j : Journal) :
    RustvelloResult (Option InvocationId) → Journal → Prop where
  | rejected {queueName : String} {priority : F64} {e : RustvelloError} :
      call.checked? = some (queueName, priority) →
      validateRouting queueName priority = .error e →
      Step now call j (.error e) j
  | routed {item : QueuedInvocation} :
      call.entry? now = some item →
      validateRouting item.queueName item.priority = .ok () →
      Step now call j (.ok none)
        { j with
          routed := j.routed ++ [item]
          queued := j.queued ++ [⟨j.routed.length, item⟩] }
  | nothing {queueName : String} :
      call.source? = some queueName →
      validateRouting queueName (.finite 0) = .ok () →
      (∀ t ∈ j.queued, ¬ call.Wants now t.entry) →
      Step now call j (.ok none) j
  | returned {before after : List Ticket} {t : Ticket} :
      j.queued = before ++ t :: after →
      call.Wants now t.entry →
      (∀ x ∈ before ++ after, call.Wants now x.entry → t.Precedes x) →
      Step now call j (.ok (some t.entry.invocationId))
        { j with
          queued := before ++ after
          returned := j.returned ++ [⟨t, now, call⟩] }
  | purged {taskId : Option TaskId} :
      call = .purge taskId →
      Step now call j (.ok none)
        { j with
          queued := j.queued.filter fun t => ¬ call.Purges t.entry
          purged := j.purged ++ j.queued.filter fun t => call.Purges t.entry }

/-- A sequence of calls with their answers. -/
def Run : Journal → List ((Timestamp × BrokerCall) × RustvelloResult (Option InvocationId)) →
    Journal → Prop
  | j, [], j' => j' = j
  | j, ((now, call), answer) :: rest, j' => ∃ next, Step now call j answer next ∧ Run next rest j'

/-- Where the tickets are. -/
def tickets (j : Journal) : List Ticket :=
  j.returned.map Delivery.ticket ++ j.purged ++ j.queued

/-- Every routed entry is in exactly one place, and what was returned was due, from the
queue that was asked for, and passed the filter of its retrieval. -/
structure Accounted (j : Journal) : Prop where
  conserved : (j.tickets.map Ticket.number).Perm (List.range j.routed.length)
  numbered : ∀ t ∈ j.tickets, j.routed[t.number]? = some t.entry
  ordered : j.queued.Pairwise fun t x => t.number < x.number
  delivered : ∀ d ∈ j.returned, d.call.Wants d.now d.ticket.entry

theorem accounted_empty : Accounted {} where
  conserved := by simp [tickets]
  numbered := by simp [tickets]
  ordered := .nil
  delivered := by simp

/-- Moving tickets between the places keeps the account. -/
theorem Accounted.move {j j' : Journal} (h : j.Accounted) (hrouted : j'.routed = j.routed)
    (htickets : j'.tickets.Perm j.tickets) (hqueued : j'.queued.Sublist j.queued)
    (hdelivered : ∀ d ∈ j'.returned, d ∈ j.returned ∨ d.call.Wants d.now d.ticket.entry) :
    j'.Accounted where
  conserved := by
    rw [hrouted]
    exact (htickets.map _).trans h.conserved
  numbered := by
    intro t ht
    rw [hrouted]
    exact h.numbered t (htickets.mem_iff.mp ht)
  ordered := h.ordered.sublist hqueued
  delivered := by
    intro d hd
    rcases hdelivered d hd with hold | hwants
    · exact h.delivered d hold
    · exact hwants

/-- A routed entry gets the next number. -/
theorem Accounted.route {j : Journal} (h : j.Accounted) (item : QueuedInvocation) :
    Accounted { j with
      routed := j.routed ++ [item]
      queued := j.queued ++ [⟨j.routed.length, item⟩] } := by
  have hnumber : ∀ t ∈ j.tickets, t.number < j.routed.length := by
    intro t ht
    exact (List.getElem?_eq_some_iff.mp (h.numbered t ht)).1
  constructor
  · have hperm := h.conserved.append_right [j.routed.length]
    simpa [tickets, List.range_succ] using hperm
  · intro t ht
    have hcases : t ∈ j.tickets ∨ t = ⟨j.routed.length, item⟩ := by
      simpa [tickets, or_assoc] using ht
    rcases hcases with hold | rfl
    · have hlt := hnumber t hold
      show (j.routed ++ [item])[t.number]? = some t.entry
      rw [List.getElem?_append_left hlt]
      exact h.numbered t hold
    · simp
  · refine List.pairwise_append.mpr ⟨h.ordered, List.pairwise_singleton _ _, ?_⟩
    intro t ht x hx
    obtain rfl := List.mem_singleton.mp hx
    exact hnumber t (List.mem_append_right _ ht)
  · exact h.delivered

/-- Every step keeps the account. -/
theorem Accounted.step {now : Timestamp} {call : BrokerCall} {j j' : Journal}
    {answer : RustvelloResult (Option InvocationId)} (h : j.Accounted)
    (hstep : Step now call j answer j') : j'.Accounted := by
  cases hstep with
  | rejected _ _ => exact h
  | nothing _ _ _ => exact h
  | routed _ _ => exact h.route _
  | @returned before after t hqueued hwants _ =>
      refine h.move rfl ?_ ?_ ?_
      · have hfront : (t :: (j.purged ++ (before ++ after))).Perm
            (j.purged ++ t :: (before ++ after)) := List.perm_middle.symm
        have hback : (t :: (before ++ after)).Perm (before ++ t :: after) :=
          List.perm_middle.symm
        have hmoved := (hfront.trans (hback.append_left _)).append_left
          (j.returned.map Delivery.ticket)
        simpa [tickets, hqueued] using hmoved
      · rw [hqueued]
        exact (List.sublist_cons_self t after).append_left before
      · intro d hd
        rcases List.mem_append.mp hd with hold | hnew
        · exact .inl hold
        · obtain rfl := List.mem_singleton.mp hnew
          exact .inr hwants
  | purged _ =>
      refine h.move rfl ?_ List.filter_sublist fun d hd => .inl hd
      have hsplit := List.filter_append_perm (fun t : Ticket => decide (call.Purges t.entry)) j.queued
      have hparts := (hsplit.append_left j.purged).append_left (j.returned.map Delivery.ticket)
      simpa [tickets, List.append_assoc] using hparts

end Journal

/-! ## The broker keeps the journal -/

namespace MemBroker

variable {b : MemBroker} {j : Journal} (now : Timestamp)

/-- A retrieval that selects what a call wants is a step of the journal. -/
theorem select_step {now : Timestamp} {call : BrokerCall} {queueName : String}
    (selected : QueuedInvocation → Bool)
    (hselected : ∀ item, selected item = true ↔ call.Wants now item)
    (hsource : call.source? = some queueName)
    (hvalid : validateRouting queueName (.finite 0) = .ok ())
    (hqueue : j.queued.map Ticket.entry = b.queue)
    (hordered : j.queued.Pairwise fun t x => t.number < x.number) :
    let answer : RustvelloResult (Option InvocationId) × MemBroker :=
      match selectIndex selected b.queue with
      | none => (.ok none, b)
      | some found => (.ok (some found.2.invocationId), ⟨b.queue.eraseIdx found.1⟩)
    ∃ j', Journal.Step now call j answer.1 j' ∧ j'.queued.map Ticket.entry = answer.2.queue := by
  intro answer
  cases hfound : selectIndex selected b.queue with
  | none =>
      have hanswer : answer = (.ok none, b) := by simp only [answer, hfound]
      rw [hanswer]
      refine ⟨j, .nothing hsource hvalid ?_, hqueue⟩
      intro t ht hwants
      have hmem : t.entry ∈ b.queue := hqueue ▸ List.mem_map_of_mem ht
      have hfalse := (selectIndex_eq_none selected b.queue).mp hfound t.entry hmem
      rw [(hselected t.entry).mpr hwants] at hfalse
      cases hfalse
  | some found =>
      have hanswer : answer =
          (.ok (some found.2.invocationId), ⟨b.queue.eraseIdx found.1⟩) := by
        simp only [answer, hfound]
      rw [hanswer]
      obtain ⟨before, after, hsplit, hlength, hsel, hbefore, hafter⟩ := selectIndex_spec hfound
      rw [hsplit] at hqueue
      obtain ⟨earlier, rest, hqueued, hearlier, hrest⟩ := List.map_eq_append_iff.mp hqueue
      obtain ⟨t, later, rfl, hentry, hlater⟩ := List.map_eq_cons_iff.mp hrest
      rw [hqueued] at hordered
      obtain ⟨_, htail, hacross⟩ := List.pairwise_append.mp hordered
      rw [← hentry]
      refine ⟨_, .returned hqueued ((hselected _).mp (hentry ▸ hsel)) ?_, ?_⟩
      · intro x hx hwants
        have hxsel := (hselected x.entry).mpr hwants
        rcases List.mem_append.mp hx with hx | hx
        · -- an earlier entry that matches has a smaller priority
          have hnot := hbefore x.entry (hearlier ▸ List.mem_map_of_mem hx) hxsel
          rw [← hentry] at hnot
          have hle := (F64.totalLe_total x.entry.priority t.entry.priority).resolve_right
            (by simp [hnot])
          exact ⟨hle, fun hge => absurd hge (by simp [hnot])⟩
        · have hle := hafter x.entry (hlater ▸ List.mem_map_of_mem hx) hxsel
          rw [← hentry] at hle
          exact ⟨hle, fun _ => List.rel_of_pairwise_cons htail hx⟩
      · rw [hsplit, ← hlength, List.eraseIdx_append_of_length_le (Nat.le_refl _), Nat.sub_self]
        simp [hearlier, hlater]

/-- A routing call is a step of the journal. -/
theorem push_step {now : Timestamp} {call : BrokerCall} {item : QueuedInvocation}
    (hentry : call.entry? now = some item)
    (hchecked : call.checked? = some (item.queueName, item.priority))
    (hqueue : j.queued.map Ticket.entry = b.queue) :
    let answer : RustvelloResult (Option InvocationId) × MemBroker :=
      match validateRouting item.queueName item.priority with
      | .error e => (.error e, b)
      | .ok _ => (.ok none, b.push item)
    ∃ j', Journal.Step now call j answer.1 j' ∧ j'.queued.map Ticket.entry = answer.2.queue := by
  intro answer
  cases hvalid : validateRouting item.queueName item.priority with
  | error e =>
      have hanswer : answer = (.error e, b) := by simp only [answer, hvalid]
      rw [hanswer]
      exact ⟨j, .rejected hchecked hvalid, hqueue⟩
  | ok _ =>
      have hanswer : answer = (.ok none, b.push item) := by simp only [answer, hvalid]
      rw [hanswer]
      refine ⟨_, .routed hentry hvalid, ?_⟩
      simp [push, hqueue]

theorem isDue_iff (item : QueuedInvocation) (now : Timestamp) :
    item.isDue now = true ↔ ∀ instant ∈ item.notBefore, instant ≤ now := by
  cases hdue : item.notBefore <;> simp [QueuedInvocation.isDue, hdue]

theorem taskFilter_iff (queueName : String) (taskId : Option TaskId) (item : QueuedInvocation) :
    (decide (item.queueName = queueName) && item.isDue now &&
        taskId.all fun taskId => decide (item.taskId = some taskId)) = true ↔
      (BrokerCall.retrieveInvocationFromQueue queueName taskId).Wants now item := by
  simp only [Bool.and_eq_true, decide_eq_true_eq, isDue_iff, and_assoc]
  refine and_congr ?_ (and_congr_right fun _ => ?_)
  · simp [BrokerCall.source?, eq_comm]
  · cases taskId <;> simp [BrokerCall.accepts]

theorem languageFilter_iff (language : TaskLanguage) (queueName : String)
    (item : QueuedInvocation) :
    (decide (item.queueName = queueName) && item.isDue now && forLanguage language item) = true ↔
      (BrokerCall.retrieveInvocationForLanguageFromQueue language queueName).Wants now item := by
  simp only [Bool.and_eq_true, decide_eq_true_eq, isDue_iff, and_assoc]
  refine and_congr ?_ (and_congr_right fun _ => ?_)
  · simp [BrokerCall.source?, eq_comm]
  · cases htask : item.taskId <;> simp [BrokerCall.accepts, forLanguage, htask]

/-- Every call is a step of the journal. -/
theorem answer_step (call : BrokerCall) (hqueue : j.queued.map Ticket.entry = b.queue)
    (hordered : j.queued.Pairwise fun t x => t.number < x.number) :
    ∃ j', Journal.Step now call j (b.answer now call).1 j' ∧
      j'.queued.map Ticket.entry = (b.answer now call).2.queue := by
  cases call with
  | routeInvocationWithOptions id taskId queueName priority =>
      have hstep := @push_step b j now (.routeInvocationWithOptions id taskId queueName priority)
        ⟨id, taskId, queueName, priority, none⟩ rfl rfl hqueue
      simp only [answer, routeInvocationWithOptions]
      cases hvalid : validateRouting queueName priority <;> simpa [hvalid, Except.map] using hstep
  | routeInvocationAfter id taskId queueName priority delay =>
      have hstep := @push_step b j now (.routeInvocationAfter id taskId queueName priority delay)
        ⟨id, taskId, queueName, priority, some (now + delay)⟩ rfl rfl hqueue
      simp only [answer, routeInvocationAfter]
      cases hvalid : validateRouting queueName priority <;> simpa [hvalid, Except.map] using hstep
  | retrieveInvocationFromQueue queueName taskId =>
      simp only [answer, retrieveInvocationFromQueue]
      cases hvalid : validateRouting queueName (.finite 0) with
      | error e => exact ⟨j, .rejected rfl hvalid, hqueue⟩
      | ok _ =>
          exact select_step _ (taskFilter_iff now queueName taskId) rfl hvalid hqueue hordered
  | retrieveInvocationForLanguageFromQueue language queueName =>
      simp only [answer, retrieveInvocationForLanguageFromQueue]
      cases hvalid : validateRouting queueName (.finite 0) with
      | error e => exact ⟨j, .rejected rfl hvalid, hqueue⟩
      | ok _ =>
          exact select_step _ (languageFilter_iff now language queueName) rfl hvalid hqueue hordered
  | purge taskId =>
      refine ⟨_, .purged rfl, ?_⟩
      have hkept : (b.purge taskId).queue =
          b.queue.filter fun item => ¬ (BrokerCall.purge taskId).Purges item := by
        cases taskId <;> simp [purge, BrokerCall.Purges]
      show (j.queued.filter _).map Ticket.entry = (b.purge taskId).queue
      rw [hkept, ← hqueue, List.filter_map]
      rfl

/-- The journal of a run from any accounted state. -/
theorem run_journal_from (calls : List (Timestamp × BrokerCall)) (hj : j.Accounted)
    (hqueue : j.queued.map Ticket.entry = b.queue) :
    ∃ j', Journal.Run j (calls.zip (b.run calls).1) j' ∧
      j'.queued.map Ticket.entry = (b.run calls).2.queue ∧ j'.Accounted := by
  induction calls generalizing b j with
  | nil => exact ⟨j, rfl, hqueue, hj⟩
  | cons entry rest ih =>
      obtain ⟨now, call⟩ := entry
      obtain ⟨next, hstep, hnext⟩ := answer_step now call hqueue hj.ordered
      obtain ⟨j', hrun, hend, hacc⟩ := ih (hj.step hstep) hnext
      exact ⟨j', ⟨next, hstep, hrun⟩, hend, hacc⟩

/-- Every sequence of calls on a fresh broker follows a journal: each retrieval returns
nothing exactly when no entry of its queue is due and passes its filter, and otherwise the
first routed entry of greatest priority among those; nothing is lost or returned twice. -/
theorem run_journal (calls : List (Timestamp × BrokerCall)) :
    ∃ j, Journal.Run {} (calls.zip (run {} calls).1) j ∧
      j.queued.map Ticket.entry = (run {} calls).2.queue ∧ j.Accounted :=
  run_journal_from calls Journal.accounted_empty rfl

end MemBroker

end Rustvello.Mem
