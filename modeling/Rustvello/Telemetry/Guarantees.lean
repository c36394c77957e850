import Rustvello.Telemetry.Accounting

/-!
# The guarantees of the emitter

What callers can rely on, over every run of any number of enqueues, flushes and shutdowns with
the steps of the worker and whatever the exporter does.

* `upheld` — the accounts are kept in every reachable state;
* `Exported` — every accepted event is exported once, in channel order and in small batches;
* `FlushKept` — what was enqueued before a flush is dropped or exported when it returns;
* `ShutdownKept` — what a shutdown closes, and what its counters say;
* `telemetry_accounted` — all three.
-/

namespace Rustvello.Telemetry

open Concurrency

variable {Ev : Type} {config : AsyncExportConfig}

abbrev EmitterThread (Ev : Type) := Thread (exportCalls Ev) (EmitterTask Ev)

abbrev EmitterSystem (Ev : Type) := System (exportCalls Ev) (ExportInner Ev) (EmitterTask Ev)

/-- The states of every run of an emitter from a given one. -/
abbrev EmitterRun (config : AsyncExportConfig) (s s' : EmitterSystem Ev) : Prop :=
  Reachable (exportMachine Ev config) (emitterGuard Ev) s s'

/-! ## What the logs say -/

/-- What an enqueue has sent with this step. -/
def sent? : Event (exportCalls Ev) → Option Ev
  | ⟨.trySendEvent event, .ok _⟩ => some event
  | _ => none

/-- What a step has added to a counter. -/
def added (counter : Counter) : Event (exportCalls Ev) → Nat
  | ⟨.fetchAdd other n, _⟩ => if other = counter then n else 0
  | _ => 0

/-- The worker has looked for events. -/
def polled : Event (exportCalls Ev) → Bool
  | ⟨.recvEvent, _⟩ => true
  | _ => false

def EmitterThread.sent (t : EmitterThread Ev) : List Ev :=
  t.log.filterMap sent?

/-- How much an operation has added to a counter. -/
def EmitterThread.added (counter : Counter) (t : EmitterThread Ev) : Nat :=
  (t.log.map (Telemetry.added counter)).sum

/-- How often the worker has looked for events. -/
def EmitterSystem.polls (s : EmitterSystem Ev) : Nat :=
  (s.threads.map fun t => t.log.countP polled).sum

/-- The event of an enqueue that has returned without counting it as dropped. -/
def EmitterThread.kept? (t : EmitterThread Ev) : Option Ev :=
  match t.task with
  | .enqueue event _ =>
      if t.next?.isNone = true ∧ EmitterThread.added .dropped t = 0 then some event else none
  | _ => none

/-- The book of an enqueue says what its log says. -/
theorem book_enqueue (config : AsyncExportConfig) (t : EmitterThread Ev) :
    ((emitting Ev config).book t).enqueue.sent = EmitterThread.sent t ∧
      ((emitting Ev config).book t).enqueue.accepted = EmitterThread.added .accepted t ∧
      ((emitting Ev config).book t).enqueue.dropped = EmitterThread.added .dropped t := by
  obtain ⟨task, prog, log⟩ := t
  induction log with
  | nil => cases task <;> exact ⟨rfl, rfl, rfl⟩
  | cons e log ih =>
      obtain ⟨hsent, haccepted, hdropped⟩ := ih
      have hother : ∀ counter, EmitterThread.added counter ⟨task, prog, e :: log⟩ =
          added counter e + EmitterThread.added counter ⟨task, prog, log⟩ := fun _ => rfl
      rw [hother, hother, ← haccepted, ← hdropped]
      obtain ⟨c, r⟩ := e
      cases c with
      | trySendEvent event =>
          cases r with
          | ok u => exact ⟨congrArg (event :: ·) hsent, (Nat.zero_add _).symm, (Nat.zero_add _).symm⟩
          | error e => exact ⟨hsent, (Nat.zero_add _).symm, (Nat.zero_add _).symm⟩
      | fetchAdd counter n =>
          cases counter with
          | accepted => exact ⟨hsent, Nat.add_comm _ _, (Nat.zero_add _).symm⟩
          | dropped => exact ⟨hsent, (Nat.zero_add _).symm, Nat.add_comm _ _⟩
          | _ => exact ⟨hsent, (Nat.zero_add _).symm, (Nat.zero_add _).symm⟩
      | _ => exact ⟨hsent, (Nat.zero_add _).symm, (Nat.zero_add _).symm⟩

theorem book_event (config : AsyncExportConfig) (t : EmitterThread Ev) :
    ((emitting Ev config).book t).enqueue.event = t.task.book.enqueue.event := by
  obtain ⟨task, prog, log⟩ := t
  induction log with
  | nil => rfl
  | cons e log ih => exact (EnqueueBook.next_event e.op e.ret _).trans ih

theorem book_kind (config : AsyncExportConfig) (t : EmitterThread Ev) :
    ((emitting Ev config).book t).control.kind = t.task.book.control.kind := by
  obtain ⟨task, prog, log⟩ := t
  induction log with
  | nil => rfl
  | cons e log ih => exact (ControlBook.next_kind e.op e.ret _).trans ih

/-- An operation has found no enqueue in flight if its log says so. -/
theorem book_idle (config : AsyncExportConfig) (t : EmitterThread Ev) :
    ((emitting Ev config).book t).control.idle = true ↔
      (⟨.loadInFlight, (0 : Nat)⟩ : Event (exportCalls Ev)) ∈ t.log := by
  obtain ⟨task, prog, log⟩ := t
  induction log with
  | nil => cases task <;> simp [Monitor.book, emitting, EmitterTask.book]
  | cons e log ih =>
      obtain ⟨c, r⟩ := e
      rw [List.mem_cons, ← ih]
      cases c with
      | loadInFlight =>
          have hnext : ((emitting Ev config).book ⟨task, prog, ⟨.loadInFlight, r⟩ :: log⟩).control.idle =
            (((emitting Ev config).book ⟨task, prog, log⟩).control.idle || r = 0) := rfl
          rw [hnext, Bool.or_eq_true, decide_eq_true_eq]
          constructor
          · rintro (hidle | rfl)
            · exact .inr hidle
            · exact .inl rfl
          · rintro (heq | hidle)
            · cases heq
              exact .inr rfl
            · exact .inl hidle
      | trySendFlush target =>
          cases r <;> simp [Monitor.book, emitting, ControlBook.next]
      | recvResponse response =>
          cases r <;> simp [Monitor.book, emitting, ControlBook.next]
      | _ => simp [Monitor.book, emitting, ControlBook.next]

/-- What an operation has read of a counter is in its log. -/
theorem book_loaded (config : AsyncExportConfig) (t : EmitterThread Ev) (counter : Counter) (n : Nat)
    (h : ((emitting Ev config).book t).control.loaded counter = some n) :
    (⟨.load counter, n⟩ : Event (exportCalls Ev)) ∈ t.log := by
  obtain ⟨task, prog, log⟩ := t
  induction log with
  | nil => cases task <;> cases h
  | cons e log ih =>
      obtain ⟨c, r⟩ := e
      cases c with
      | load other =>
          by_cases hother : counter = other
          · subst hother
            have hn : r = n := by simpa [Monitor.book, emitting, ControlBook.next] using h
            rw [hn]
            exact List.mem_cons_self
          · refine List.mem_cons_of_mem _ (ih ?_)
            simpa [Monitor.book, emitting, ControlBook.next, hother] using h
      | trySendFlush target =>
          refine List.mem_cons_of_mem _ (ih ?_)
          cases r <;> exact h
      | recvResponse response =>
          refine List.mem_cons_of_mem _ (ih ?_)
          cases r <;> exact h
      | _ => exact List.mem_cons_of_mem _ (ih h)

/-! ## Every reachable state -/

/-- An operation that is about to start changes no account. -/
theorem Accounted.start {x : ExportInner Ev} {books : List (Book Ev)}
    (h : Accounted config x books) (task : EmitterTask Ev)
    (hworker : task.isWorker = true → books.filterMap Book.worker = []) :
    Accounted config x (books ++ [task.book]) := by
  have henqueue : ∃ event, task.book.enqueue = { event := event } := by
    cases task <;> exact ⟨_, rfl⟩
  have hcontrol : ∃ kind, task.book.control = { kind := kind } := by
    cases task <;> exact ⟨_, rfl⟩
  obtain ⟨event, henqueue⟩ := henqueue
  obtain ⟨kind, hcontrol⟩ := hcontrol
  have hadd : ∀ {P : Book Ev → Prop}, (∀ b ∈ books, P b) → P task.book →
      ∀ b ∈ books ++ [task.book], P b := by
    intro P hold hnew b hb
    rcases List.mem_append.mp hb with hb | hb
    · exact hold b hb
    · obtain rfl := List.mem_singleton.mp hb
      exact hnew
  have hquiet : ¬task.book.control.Quiet := by
    rw [hcontrol]
    exact fun hquiet => by cases hquiet.2
  refine ⟨?_, ?_, ?_, ?_, ?_, ?_, ?_⟩
  · rw [List.map_append, List.map_singleton, henqueue]
    exact h.counted.start event
  · obtain ⟨hclosing, hunread, hstate, hsettled, hread⟩ := h.quieted
    refine ⟨hadd hclosing ?_, hadd hunread ?_, hadd hstate fun hq => absurd hq hquiet,
      hadd (fun b hb hq => hadd (hsettled b hb hq) ?_) fun hq => absurd hq hquiet,
      hadd hread fun hq => absurd hq hquiet⟩
    · rw [hcontrol]
      nofun
    · rw [hcontrol]
      exact fun _ _ => rfl
    · rw [henqueue]
      exact ⟨rfl, rfl⟩
  · obtain ⟨hadmissions, hchosen, htargets, hsome⟩ := h.handed
    refine ⟨?_, hadd hchosen ?_, htargets, fun hne => ?_⟩
    · rw [List.countP_append, List.countP_singleton, hcontrol]
      exact hadmissions
    · rw [hcontrol]
      nofun
    · obtain ⟨q, hq, hquiet⟩ := hsome hne
      exact ⟨q, List.mem_append_left _ hq, hquiet⟩
  · obtain ⟨hresponse, hreceiver, hanswered, hresponses⟩ := h.commanded
    refine ⟨hresponse, hadd hreceiver ?_, hadd hanswered ?_, hresponses⟩
    · rw [hcontrol]
      nofun
    · rw [hcontrol]
      nofun
  · obtain ⟨hclosed, hread⟩ := h.concluded
    refine ⟨hadd hclosed ?_, hadd hread ?_⟩
    · rw [hcontrol]
      nofun
    · rw [hcontrol]
      nofun
  · have hsingle := h.single
    rw [List.filterMap_append, List.length_append]
    cases hkind : task.isWorker with
    | true =>
        rw [hworker hkind]
        cases task with
        | worker rounds => exact Nat.le_refl 1
        | _ => cases hkind
    | false =>
        cases task with
        | worker rounds => cases hkind
        | _ => exact hsingle
  · have hworks := h.works
    rw [List.filterMap_append]
    cases hkind : task.isWorker with
    | true =>
        rw [hworker hkind] at hworks ⊢
        cases task with
        | worker rounds => exact hworks
        | _ => cases hkind
    | false =>
        cases task with
        | worker rounds => cases hkind
        | _ =>
            rw [show [EmitterTask.book _].filterMap Book.worker = [] from rfl, List.append_nil]
            exact hworks

theorem works_new : Works config ({} : ExportInner Ev) {} where
  received := Nat.le_refl _
  taken := rfl
  counted := rfl
  processed := rfl
  batches _ h := by cases h
  batch := Nat.zero_le _
  flush _ h := by cases h
  shutdown _ h := by cases h
  disconnected h := by cases h
  ended h := absurd rfl h
  exporterShutdowns := rfl
  closed h := by cases h
  connected h := by cases h

/-- A new emitter has nothing to account for. -/
theorem accounted_new : Accounted config ({} : ExportInner Ev) [] where
  counted := ⟨rfl, .refl _, rfl, rfl, by simp⟩
  quieted := ⟨by simp, by simp, by simp, by simp, by simp⟩
  handed := ⟨rfl, by simp, by simp, by simp⟩
  commanded := ⟨by simp, by simp, by simp, by simp⟩
  concluded := ⟨by simp, by simp⟩
  single := Nat.zero_le _
  works := works_new

/-- **The accounts are kept** in every run. -/
theorem upheld : (emitting Ev config).Upheld (fun g => g.enqueue.Returned) (Accounted config)
    (exportMachine Ev config) (emitterGuard Ev) (newEmitter Ev) where
  program _ task _ := program_obeys task
  obey := nofun
  logs := nofun
  holds := accounted_new
  start s task hallowed hinv := by
    refine hinv.start task fun hkind => ?_
    have hnone : ∀ t ∈ s.threads, t.task.isWorker = false := by
      have hguard : if task.isWorker = true then ∀ t ∈ s.threads, t.task.isWorker = false
          else s.shared.live = true := hallowed
      rwa [if_pos hkind] at hguard
    refine List.filterMap_eq_nil_iff.mpr fun b hb => ?_
    obtain ⟨t, ht, rfl⟩ := List.mem_map.mp hb
    have hworker : ((emitting Ev config).book t).worker.isSome = _ := book_worker t
    rw [hnone t ht] at hworker
    simpa using hworker
  call s i env t c before after hturn hinv := by
    refine hinv.call hturn.permitted fun hnone => ?_
    have hother : t.task.isWorker = false := by
      have hworker : ((emitting Ev config).book t).worker.isSome = _ := book_worker t
      rw [hnone] at hworker
      exact hworker.symm
    exact (hturn.allowed t (by rw [hturn.thread]; rfl) hother).1

section Runs

variable {s s' : EmitterSystem Ev} {t : EmitterThread Ev}

theorem accounted (h : EmitterRun config (newEmitter Ev) s) :
    Accounted config s.shared (s.books (emitting Ev config).toMonitor) :=
  (upheld.obeyed h).2

/-- Events stay in the channel's record. -/
theorem sent_extends (h : EmitterRun config s s') :
    s.shared.events.sent <+: s'.shared.events.sent := by
  refine h.shared_invariant (fun x => s.shared.events.sent <+: x.events.sent)
    (List.prefix_rfl) fun t i env c _ hold => ?_
  by_cases hsend : ∃ event, c = .trySendEvent event
  · obtain ⟨event, rfl⟩ := hsend
    simp only [exportMachine, ExportInner.exec]
    obtain heq | ⟨e, heq⟩ := t.shared.events.trySend_cases config.queueCapacity event
    · rw [heq]
      exact hold.trans (List.prefix_append _ _)
    · rw [heq]
      exact hold
  · have hframe := ExportInner.exec_frame config env c t.shared
    have hsame := hframe.sent fun event hc => hsend ⟨event, hc⟩
    show _ <+: (t.shared.exec config env c).2.events.sent
    rw [hsame]
    exact hold

/-- Counters do not go back. -/
theorem counters_le (h : EmitterRun config s s') (counter : Counter) :
    s.shared.counters counter ≤ s'.shared.counters counter := by
  refine h.shared_invariant (fun x => s.shared.counters counter ≤ x.counters counter)
    (Nat.le_refl _) fun t i env c _ hold => Nat.le_trans hold ?_
  show _ ≤ (t.shared.exec config env c).2.counters counter
  have hframe := ExportInner.exec_frame config env c t.shared
  by_cases hadd : ∃ n, c = .fetchAdd counter n
  · obtain ⟨n, rfl⟩ := hadd
    simp [ExportInner.exec]
  · by_cases hmax : ∃ n, c = .fetchMax counter n
    · obtain ⟨n, rfl⟩ := hmax
      simp only [ExportInner.exec, Function.update_self]
      exact Nat.le_max_left _ _
    · have hsame := hframe.counters counter (fun n hc => hadd ⟨n, hc⟩) fun n hc => hmax ⟨n, hc⟩
      exact Nat.le_of_eq hsame.symm

/-- An enqueue that has returned was counted once. -/
theorem returned_counted (h : EmitterRun config (newEmitter Ev) s) (ht : t ∈ s.threads)
    (hdone : t.next? = none) {event : Ev} {elapsed : Nat}
    (htask : t.task = .enqueue event elapsed) :
    (EmitterThread.sent t = [event] ∧ EmitterThread.added .accepted t = 1 ∧
      EmitterThread.added .dropped t = 0) ∨
    (EmitterThread.sent t = [] ∧ EmitterThread.added .accepted t = 0 ∧
      EmitterThread.added .dropped t = 1) := by
  have hobey := (upheld.obeyed h).1 t ht
  have hreturned : ((emitting Ev config).book t).enqueue.Returned := by
    cases hprog : t.prog with
    | done u =>
        rw [hprog] at hobey
        exact hobey
    | call c k => simp [Thread.next?, hprog] at hdone
  have hevent : ((emitting Ev config).book t).enqueue.event = some event := by
    rw [book_event, htask]
    rfl
  obtain ⟨hsent, haccepted, hdropped⟩ := book_enqueue config t
  rw [← hsent, ← haccepted, ← hdropped]
  exact hreturned event hevent

/-- The events of the channel are those that enqueues have sent. -/
theorem sent_perm (h : EmitterRun config (newEmitter Ev) s) :
    s.shared.events.sent.Perm (s.threads.flatMap EmitterThread.sent) := by
  have hsent := (accounted h).counted.sent
  rw [System.books, List.flatMap_map, List.flatMap_map] at hsent
  refine hsent.trans (List.Perm.of_eq ?_)
  exact congrArg (List.flatMap · s.threads) (funext fun t => (book_enqueue config t).1)

/-- The counters are what the operations have added to them. -/
theorem counters_sum (h : EmitterRun config (newEmitter Ev) s) :
    s.shared.counters .accepted = (s.threads.map (EmitterThread.added .accepted)).sum ∧
      s.shared.counters .dropped = (s.threads.map (EmitterThread.added .dropped)).sum := by
  have hcounted := (accounted h).counted
  have haccepted := hcounted.accepted
  have hdropped := hcounted.dropped
  rw [System.books, List.map_map, List.map_map] at haccepted hdropped
  rw [haccepted, hdropped]
  exact ⟨congrArg (fun f => (s.threads.map f).sum) (funext fun t => (book_enqueue config t).2.1),
    congrArg (fun f => (s.threads.map f).sum) (funext fun t => (book_enqueue config t).2.2)⟩

/-- The event of an enqueue that has returned, and was not dropped, is in the channel. -/
theorem kept_subperm (h : EmitterRun config (newEmitter Ev) s) :
    (s.threads.filterMap EmitterThread.kept?).Subperm s.shared.events.sent := by
  refine List.Subperm.trans ?_ (sent_perm h).symm.subperm
  refine List.Sublist.subperm ?_
  have hkept : ∀ t ∈ s.threads, ∀ event, EmitterThread.kept? t = some event →
      EmitterThread.sent t = [event] := by
    intro t ht event hkept
    unfold EmitterThread.kept? at hkept
    split at hkept
    · rename_i event' elapsed htask
      split at hkept
      · rename_i hdone
        obtain rfl := Option.some.inj hkept
        obtain ⟨hsent, -⟩ | ⟨-, -, hdropped⟩ :=
          returned_counted h ht (Option.isNone_iff_eq_none.mp hdone.1) htask
        · exact hsent
        · rw [hdone.2] at hdropped
          cases hdropped
      · cases hkept
    · cases hkept
  generalize s.threads = threads at hkept
  induction threads with
  | nil => exact .slnil
  | cons t threads ih =>
      have hrest := ih fun u hu => hkept u (List.mem_cons_of_mem _ hu)
      rw [List.flatMap_cons]
      cases hevent : EmitterThread.kept? t with
      | none =>
          rw [List.filterMap_cons_none hevent]
          exact hrest.trans (List.sublist_append_right _ _)
      | some event =>
          rw [List.filterMap_cons_some hevent, hkept t List.mem_cons_self event hevent]
          exact hrest.cons_cons event

/-- What the worker has exported is the beginning of the channel. -/
theorem prefix_batches (h : EmitterRun config (newEmitter Ev) s) :
    s.shared.batches.flatten <+: s.shared.events.sent := by
  have hworks := (accounted h).works
  have htaken := hworks.taken
  exact (List.prefix_append _ _).trans (htaken ▸ List.take_prefix _ _)

/-- Enough of the channel is exported to cover an earlier state of it. -/
theorem sent_prefix_batches (h : EmitterRun config (newEmitter Ev) s')
    (hrun : EmitterRun config s s')
    (hlength : s.shared.events.sent.length ≤ s'.shared.batches.flatten.length) :
    s.shared.events.sent <+: s'.shared.batches.flatten :=
  List.prefix_of_prefix_length_le (sent_extends hrun) (prefix_batches h) hlength

/-! ## Exports -/

/-- One term of a sum is replaced. -/
theorem sum_map_set {α : Type} {l : List α} {i : Nat} {a b : α} (h : l[i]? = some a)
    (f : α → Nat) : ((l.set i b).map f).sum + f a = (l.map f).sum + f b := by
  induction l generalizing i with
  | nil => simp at h
  | cons head tail ih =>
      cases i with
      | zero =>
          obtain rfl : head = a := by simpa using h
          simp only [List.set_cons_zero, List.map_cons, List.sum_cons]
          omega
      | succ i =>
          have htail := ih (i := i) (by simpa using h)
          simp only [List.set_cons_succ, List.map_cons, List.sum_cons]
          omega

/-- The looks of the worker, before and after one step. -/
theorem polls_afterCall {i : Nat} (ht : s.threads[i]? = some t) (env : ExporterOutcome)
    (c : ExportCall Ev) (k : c.Ans → Prog (exportCalls Ev) Unit) :
    EmitterSystem.polls (s.afterCall (exportMachine Ev config) i t env c k) =
      EmitterSystem.polls s + (polled ⟨c, (s.shared.exec config env c).1⟩).toNat := by
  have hsum := sum_map_set (b := ⟨t.task, k (s.shared.exec config env c).1,
    ⟨c, (s.shared.exec config env c).1⟩ :: t.log⟩) ht fun t => t.log.countP polled
  have hcount : ∀ (e : Event (exportCalls Ev)) log,
      List.countP polled (e :: log) = List.countP polled log + (polled e).toNat := by
    intro e log
    rw [List.countP_cons]
    cases polled e <;> rfl
  simp only [hcount] at hsum
  unfold EmitterSystem.polls
  show (List.map _ (s.threads.set i _)).sum = _
  dsimp only [exportMachine]
  omega

/-- Nothing that was taken or exported is put back. -/
theorem exec_progress (env : ExporterOutcome) (c : ExportCall Ev) (x : ExportInner Ev) :
    x.events.received ≤ (x.exec config env c).2.events.received ∧
      x.batches.flatten.length ≤ (x.exec config env c).2.batches.flatten.length := by
  have hframe := ExportInner.exec_frame config env c x
  cases c with
  | exportEvents batch => exact ⟨Nat.le_refl _, by simp [ExportInner.exec]⟩
  | recvEvent =>
      rw [hframe.batches (by rintro _ ⟨⟩)]
      refine ⟨?_, Nat.le_refl _⟩
      simp only [ExportInner.exec]
      obtain ⟨-, heq⟩ | ⟨event, -, heq⟩ := x.recvEvent_cases
      · exact Nat.le_of_eq (by rw [heq])
      · rw [heq]
        exact Nat.le_succ _
  | tryRecvEvent =>
      refine ⟨?_, Nat.le_refl _⟩
      simp only [ExportInner.exec]
      obtain ⟨-, heq⟩ | ⟨event, -, heq⟩ := x.events.tryRecv_cases
      · exact Nat.le_of_eq (by rw [heq])
      · rw [heq]
        exact Nat.le_succ _
  | _ =>
      rw [hframe.received (by rintro ⟨⟩) (by rintro ⟨⟩), hframe.batches (by rintro _ ⟨⟩)]
      exact ⟨Nat.le_refl _, Nat.le_refl _⟩

/-- **Progress.**  As often as the worker looks for events, it takes one that is waiting, and
it exports what it has taken before it looks again. -/
theorem taken_of_polls (h : EmitterRun config (newEmitter Ev) s) (hrun : EmitterRun config s s') :
    EmitterSystem.polls s ≤ EmitterSystem.polls s' ∧
    min s.shared.events.sent.length
        (s.shared.events.received + (EmitterSystem.polls s' - EmitterSystem.polls s)) ≤
      s'.shared.events.received ∧
    (EmitterSystem.polls s < EmitterSystem.polls s' →
      min s.shared.events.sent.length
        (s.shared.events.received + (EmitterSystem.polls s' - EmitterSystem.polls s - 1)) ≤
      s'.shared.batches.flatten.length) := by
  induction hrun with
  | refl => exact ⟨Nat.le_refl _, by omega, fun hlt => absurd hlt (Nat.lt_irrefl _)⟩
  | @next s₁ s₂ l hreach hallow happly ih =>
      obtain ⟨hmore, htaken, hexported⟩ := ih
      have hsent := (sent_extends hreach).length_le
      obtain ⟨task, rfl, rfl⟩ | ⟨i, env, t, c, k, rfl, ht, hprog, rfl⟩ :=
        System.apply_cases happly
      · have hsame : EmitterSystem.polls { s₁ with threads := s₁.threads ++
            [⟨task, (exportMachine Ev config).program task, []⟩] } = EmitterSystem.polls s₁ := by
          simp [EmitterSystem.polls]
        rw [hsame]
        exact ⟨hmore, htaken, hexported⟩
      · have hnext : t.next? = some c := by simp [Thread.next?, hprog]
        have hpolls : EmitterSystem.polls (s₁.afterCall (exportMachine Ev config) i t env c k) = _ :=
          polls_afterCall ht env c k
        have hprogress : s₁.shared.events.received ≤
            (s₁.afterCall (exportMachine Ev config) i t env c k).shared.events.received ∧
            s₁.shared.batches.flatten.length ≤
            (s₁.afterCall (exportMachine Ev config) i t env c k).shared.batches.flatten.length :=
          exec_progress env c s₁.shared
        obtain ⟨hreceived, hbatches⟩ := hprogress
        by_cases hc : c = .recvEvent
        · subst hc
          obtain ⟨before, after, hturn, hinv⟩ :=
            upheld.turn (h.trans hreach) ht hprog (hallow t ht _ hnext)
          have hworking := hinv.works_of_worker hturn.permitted rfl
          obtain ⟨w, hworks, -, hbatch, -⟩ := hworking
          have hlength := hworks.exported_length
          rw [hbatch, List.length_nil] at hlength
          have hone : polled (⟨.recvEvent, (s₁.shared.exec config env .recvEvent).1⟩ :
              Event (exportCalls Ev)) = true := rfl
          rw [hone] at hpolls
          have hnew : s₁.shared.events.sent.length ≤ s₁.shared.events.received ∨
              s₁.shared.events.received + 1 ≤
              (s₁.afterCall (exportMachine Ev config) i t env .recvEvent k).shared.events.received := by
            show _ ∨ _ ≤ (s₁.shared.exec config env .recvEvent).2.events.received
            simp only [ExportInner.exec]
            obtain ⟨hnone, heq⟩ | ⟨event, -, heq⟩ := s₁.shared.recvEvent_cases
            · exact .inl (List.getElem?_eq_none_iff.mp hnone)
            · rw [heq]
              exact .inr (Nat.le_refl _)
          simp only [Bool.toNat_true] at hpolls
          omega
        · have hnone : polled (⟨c, (s₁.shared.exec config env c).1⟩ :
              Event (exportCalls Ev)) = false := by
            cases c <;> first | rfl | exact absurd rfl hc
          rw [hnone, Bool.toNat_false] at hpolls
          omega

/-! ## Shutdowns -/

/-- After a shutdown has found no enqueue in flight, no step sends or counts an event. -/
theorem quiet_run (h : EmitterRun config (newEmitter Ev) s)
    (hquiet : ∃ u ∈ s.threads, ((emitting Ev config).book u).control.Quiet)
    (hrun : EmitterRun config s s') :
    (∃ u ∈ s'.threads, ((emitting Ev config).book u).control.Quiet) ∧
      s'.shared.events.sent = s.shared.events.sent ∧
      s'.shared.counters .accepted = s.shared.counters .accepted := by
  induction hrun with
  | refl => exact ⟨hquiet, rfl, rfl⟩
  | @next s₁ s₂ l hreach hallow happly ih =>
      obtain ⟨⟨u, hu, hkept⟩, hsent, haccepted⟩ := ih
      obtain ⟨task, rfl, rfl⟩ | ⟨i, env, t, c, k, rfl, ht, hprog, rfl⟩ :=
        System.apply_cases happly
      · exact ⟨⟨u, List.mem_append_left _ hu, hkept⟩, hsent, haccepted⟩
      · have hnext : t.next? = some c := by simp [Thread.next?, hprog]
        obtain ⟨before, after, hturn, hinv⟩ :=
          upheld.turn (h.trans hreach) ht hprog (hallow t ht c hnext)
        have hbook : (emitting Ev config).book u ∈ before ++ (emitting Ev config).book t :: after := by
          rw [← hturn.books]
          exact List.mem_map_of_mem hu
        have hsettled := hinv.quieted.settled _ hbook hkept ((emitting Ev config).book t) (by simp)
        refine ⟨?_, ?_, ?_⟩
        · obtain ⟨j, hj⟩ := List.mem_iff_getElem?.mp hu
          have hi : i < s₁.threads.length := (List.getElem?_eq_some_iff.mp ht).1
          by_cases hij : i = j
          · subst hij
            obtain rfl : t = u := Option.some.inj (ht.symm.trans hj)
            exact ⟨_, List.mem_set hi _, hkept.next _⟩
          · refine ⟨u, List.mem_of_getElem? (i := j) ?_, hkept⟩
            show (s₁.threads.set i _)[j]? = some u
            rw [List.getElem?_set_ne hij, hj]
        · exact (hsettled.sent_eq hturn.permitted.1).trans hsent
        · exact (hsettled.counter_eq hturn.permitted.1).trans haccepted

/-! ## Flushes -/

/-- A flush that returns has waited for at least as many events as were sent before it. -/
theorem flushed [DecidableEq Ev] {s₀ : EmitterSystem Ev} (h₀ : EmitterRun config (newEmitter Ev) s₀)
    (hrun : EmitterRun config s₀ s) (ht : s.threads[s₀.threads.length]? = some t) {polls : Nat}
    (htask : t.task = .flush polls) {snapshot : AsyncExportStats}
    (hreturned : t.returned (flush polls).run = some (.ok snapshot)) :
    s₀.shared.events.sent.length ≤ s.shared.batches.flatten.length := by
  have h : EmitterRun config (newEmitter Ev) s := h₀.trans hrun
  have hmem := List.mem_of_getElem? ht
  have hnew : s₀.threads[s₀.threads.length]? = none := List.getElem?_eq_none_iff.mpr (Nat.le_refl _)
  have hcommanded := (accounted h).commanded
  have hbook : (emitting Ev config).book t ∈ s.books (emitting Ev config).toMonitor :=
    List.mem_map_of_mem hmem
  -- the response was sent when the target of its command was exported
  have hanswered : ((emitting Ev config).book t).control.answered = true := by
    have hobeys : (emitting Ev config).ObeysE (flush polls)
        (fun _ g => g.control.answered = true ∧ g.Controls) (fun _ g => g.Controls)
        ((emitting Ev config).start t.task) := by
      rw [htask]
      exact flush_obeys polls
    have hpost := upheld.outcome h hmem hobeys hreturned
    exact hpost.1
  obtain ⟨k, found, hreceiver, hfound⟩ := hcommanded.answered _ hbook hanswered
  obtain ⟨command, hcommand, hloaded⟩ := hcommanded.receiver _ hbook k hreceiver
  obtain ⟨command', hcommand', htarget⟩ := hcommanded.responses k found hfound
  obtain rfl : command = command' := Option.some.inj (hcommand.symm.trans hcommand')
  -- the target is the number of accepted events, read with no enqueue in flight
  obtain ⟨s₂, env, t₂, k₂, hrun₂, ht₂, htask₂, hprog₂, hallow₂, hvalue, -⟩ :=
    hrun.made_since hnew ht (book_loaded config t _ _ hloaded)
  have hnext : t₂.next? = some (.load .accepted) := by simp [Thread.next?, hprog₂]
  obtain ⟨before, after, hturn, -⟩ :=
    upheld.turn (h₀.trans hrun₂) ht₂ hprog₂ (hallow₂ t₂ ht₂ _ hnext)
  have hidle : ((emitting Ev config).book t₂).control.idle = true := by
    refine hturn.permitted.2.1.2.1 ?_
    rw [book_kind, htask₂, htask]
    rfl
  obtain ⟨s₃, env₃, t₃, k₃, hrun₃, ht₃, -, hprog₃, hallow₃, hzero, hrest⟩ :=
    hrun₂.made_since hnew ht₂ ((book_idle config t₂).mp hidle)
  have hcounted := (accounted (h₀.trans hrun₃)).counted
  have hall := hcounted.accepted_eq (hcounted.settled hzero.symm)
  have hlater : s₃.shared.counters .accepted ≤ s₂.shared.counters .accepted :=
    counters_le (hrest) .accepted
  have hearlier := (sent_extends hrun₃).length_le
  have hvalue : command.target = s₂.shared.counters .accepted := hvalue
  omega

/-! ## The guarantees -/

/-- Every accepted event is exported once, in channel order and in batches of bounded size. -/
structure Exported (config : AsyncExportConfig) (s : EmitterSystem Ev) : Prop where
  /-- The channel holds the events that enqueues have sent. -/
  accepted : s.shared.events.sent.Perm (s.threads.flatMap EmitterThread.sent)
  inOrder : s.shared.batches.flatten <+: s.shared.events.sent
  small : ∀ batch ∈ s.shared.batches, batch ≠ [] ∧ batch.length ≤ config.maxBatchSize
  /-- Nothing is left when the exporter is shut down. -/
  complete : s.shared.exporterShutdowns ≠ 0 → s.shared.batches.flatten = s.shared.events.sent
  /-- Nothing is left once the worker has looked once more than there are events. -/
  soon : ∀ s', EmitterRun config s s' → EmitterSystem.polls s +
    (s.shared.events.sent.length - s.shared.events.received) < EmitterSystem.polls s' →
    s.shared.events.sent <+: s'.shared.batches.flatten

/-- When a flush returns `Ok`, the event of every enqueue that had returned before it was
called has been dropped or passed to the exporter. -/
def FlushKept [DecidableEq Ev] (config : AsyncExportConfig) (s : EmitterSystem Ev) : Prop :=
  ∀ s₀ s₁ polls snapshot, EmitterRun config (newEmitter Ev) s₀ →
    (emitterGuard Ev).Allows s₀ (.start (.flush polls) : Label ExporterOutcome _) →
    s₀.apply (exportMachine Ev config) (.start (.flush polls)) = some s₁ →
    EmitterRun config s₁ s →
    ∀ t ∈ s.threads[s₀.threads.length]?, t.returned (flush polls).run = some (.ok snapshot) →
      (s₀.threads.filterMap EmitterThread.kept?).Subperm s.shared.batches.flatten

/-- Every enqueue that has returned was counted as accepted or as dropped, and once; and the
counters say how often. -/
structure EachCounted (s : EmitterSystem Ev) : Prop where
  once : ∀ t ∈ s.threads, ∀ event elapsed, t.task = .enqueue event elapsed → t.next? = none →
    (EmitterThread.added .accepted t = 1 ∧ EmitterThread.added .dropped t = 0) ∨
      (EmitterThread.added .accepted t = 0 ∧ EmitterThread.added .dropped t = 1)
  accepted : s.shared.counters .accepted =
    (s.threads.map (EmitterThread.added .accepted)).sum
  dropped : s.shared.counters .dropped = (s.threads.map (EmitterThread.added .dropped)).sum

/-- What a shutdown guarantees. -/
structure ShutdownKept [DecidableEq Ev] (config : AsyncExportConfig) (s : EmitterSystem Ev)
    (t : EmitterThread Ev) (patience : Patience) : Prop where
  /-- Once it has found no enqueue in flight, no further event is accepted. -/
  closed : (⟨.loadInFlight, (0 : Nat)⟩ : Event (exportCalls Ev)) ∈ t.log →
    ∀ s', EmitterRun config s s' → s'.shared.events.sent = s.shared.events.sent ∧
      s'.shared.counters .accepted = s.shared.counters .accepted
  /-- What it returns. -/
  returned : ∀ st, t.returned (shutdown patience).run = some (.ok st) →
    st.accepted = st.exported + st.exportFailed ∧
    st.accepted = s.shared.events.sent.length ∧
    s.shared.counters .accepted =
      s.shared.counters .exported + s.shared.counters .exportFailed ∧
    s.shared.exporterShutdowns = 1 ∧ EachCounted s

theorem exported (h : EmitterRun config (newEmitter Ev) s) : Exported config s where
  accepted := sent_perm h
  inOrder := prefix_batches h
  small := (accounted h).works.batches
  complete hshut := by
    have hworks := (accounted h).works
    obtain ⟨hbatch, -, hreceived, -⟩ := hworks.ended fun hrunning =>
      hshut (hworks.exporterShutdowns.trans (if_pos hrunning))
    have htaken := hworks.taken
    rw [hbatch, hreceived, List.take_length, List.append_nil] at htaken
    exact htaken.symm
  soon s' hrun hpolls := by
    obtain ⟨-, -, hexported⟩ := taken_of_polls h hrun
    refine sent_prefix_batches (h.trans hrun) hrun (Nat.le_trans ?_ (hexported (by omega)))
    omega

theorem flushKept [DecidableEq Ev] (h : EmitterRun config (newEmitter Ev) s) :
    FlushKept config s := by
  intro s₀ s₁ polls snapshot h₀ hallow happly hrun t ht hreturned
  have hlater : EmitterRun config s₀ s := (Reachable.refl.next hallow happly).trans hrun
  have htask : t.task = .flush polls := by
    obtain rfl : s₁ = _ := (Option.some.inj happly).symm
    obtain ⟨t', ht', htask⟩ := hrun.task_at (i := s₀.threads.length)
      (t := ⟨.flush polls, (exportMachine Ev config).program (.flush polls), []⟩) (by simp)
    obtain rfl : t' = t := Option.some.inj (ht'.symm.trans ht)
    exact htask
  have hlength := flushed h₀ hlater ht htask hreturned
  exact (kept_subperm h₀).trans (sent_prefix_batches h hlater hlength).sublist.subperm

theorem eachCounted (h : EmitterRun config (newEmitter Ev) s) : EachCounted s where
  once _ ht _ _ htask hdone := (returned_counted h ht hdone htask).imp And.right And.right
  accepted := (counters_sum h).1
  dropped := (counters_sum h).2

theorem shutdownKept [DecidableEq Ev] (h : EmitterRun config (newEmitter Ev) s) (ht : t ∈ s.threads)
    {patience : Patience}
    (htask : t.task = .shutdown patience) : ShutdownKept config s t patience where
  closed hidle s' hrun := by
    have hquiet : ((emitting Ev config).book t).control.Quiet := by
      refine ⟨?_, (book_idle config t).mpr hidle⟩
      rw [book_kind, htask]
      rfl
    exact (quiet_run h ⟨t, ht, hquiet⟩ hrun).2
  returned st hreturned := by
    have haccounted := accounted h
    have hbook : (emitting Ev config).book t ∈ s.books (emitting Ev config).toMonitor :=
      List.mem_map_of_mem ht
    have hstopped : ((emitting Ev config).book t).Stopped st := by
      have hobeys : (emitting Ev config).ObeysE (shutdown patience) (fun st g => g.Stopped st)
          (fun _ g => g.Controls) ((emitting Ev config).start t.task) := by
        rw [htask]
        exact shutdown_obeys patience
      exact upheld.outcome h ht hobeys hreturned
    have hsettled : ∀ b ∈ (s.books (emitting Ev config).toMonitor).map Book.enqueue, b.Settled := by
      intro b hb
      obtain ⟨book, hmem, rfl⟩ := List.mem_map.mp hb
      exact haccounted.quieted.settled _ hbook hstopped.quiet book hmem
    have haccepted := haccounted.quieted.read _ hbook hstopped.quiet _ hstopped.accepted
    have hexported := haccounted.concluded.read _ hbook hstopped.quiet.1 .exported rfl _
      hstopped.exported
    have hfailed := haccounted.concluded.read _ hbook hstopped.quiet.1 .exportFailed rfl _
      hstopped.exportFailed
    -- the worker has closed the emitter, so it has exported and counted everything
    have hworks := haccounted.works
    have hstage := hworks.closed (haccounted.concluded.closed _ hbook hstopped.closed)
    obtain ⟨hbatch, hunsettled, hreceived, -⟩ := hworks.ended (by rw [hstage]; decide)
    have hall := haccounted.counted.accepted_eq hsettled
    have hlength := hworks.exported_length
    have hcounted := hworks.counted
    have hprocessed := hworks.processed
    have hshut := hworks.exporterShutdowns
    rw [hbatch, List.length_nil] at hlength
    rw [hstage] at hshut
    exact ⟨by omega, by omega, by omega, hshut, eachCounted h⟩

/-- **Telemetry export loses nothing silently**, in every state of every run. -/
theorem telemetry_accounted [DecidableEq Ev] (config : AsyncExportConfig)
    (h : EmitterRun config (newEmitter Ev) s) :
    Exported config s ∧ FlushKept config s ∧
      ∀ t ∈ s.threads, ∀ patience, t.task = .shutdown patience →
        ShutdownKept config s t patience := by
  exact ⟨exported h, flushKept h, fun t ht patience htask => shutdownKept h ht htask⟩

end Runs

/-- One event is enqueued, flushed and exported, and the emitter is shut down. -/
def flushedAndShut : List (Label ExporterOutcome (EmitterTask Nat)) :=
  .start (.enqueue 7 0) :: Label.steps 0 7 .ok ++
  .start (.flush 0) :: Label.steps 1 4 .ok ++
  .start (.worker 2) :: Label.steps 2 13 .ok ++ Label.steps 1 1 .ok ++
  .start (.shutdown ⟨0, 0, 0⟩) :: Label.steps 3 5 .ok ++ Label.steps 2 17 .ok ++
  Label.steps 3 10 .ok

/-- The value of an operation that has returned `Ok`. -/
def returnedOk {α : Type} (s : EmitterSystem Nat) (i : Nat) (p : EmitterCall Nat α) : Bool :=
  (s.threads[i]?.bind fun t => t.returned p.run).any (·.toBool)

theorem telemetry_accounted_shut : ∃ s : EmitterSystem Nat,
    (returnedOk s 1 (flush 0) = true ∧ returnedOk s 3 (shutdown ⟨0, 0, 0⟩) = true ∧
      s.shared.batches = [[7]]) ∧
    Exported ⟨2, 1, 1, by decide, by decide, by decide⟩ s ∧
    FlushKept ⟨2, 1, 1, by decide, by decide, by decide⟩ s ∧
    ∀ t ∈ s.threads, ∀ patience, t.task = .shutdown patience →
      ShutdownKept ⟨2, 1, 1, by decide, by decide, by decide⟩ s t patience := by
  obtain ⟨s, hrun, hreturned⟩ := Reachable.exists_of_run
    (exportMachine Nat ⟨2, 1, 1, by decide, by decide, by decide⟩) (emitterGuard Nat)
    (newEmitter Nat) flushedAndShut
    (fun s => returnedOk s 1 (flush 0) = true ∧ returnedOk s 3 (shutdown ⟨0, 0, 0⟩) = true ∧
      s.shared.batches = [[7]])
    (by decide +kernel) (by decide +kernel)
  exact ⟨s, hreturned, telemetry_accounted _ hrun⟩

end Rustvello.Telemetry
