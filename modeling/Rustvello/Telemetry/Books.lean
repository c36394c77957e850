import Rustvello.Telemetry.Emitter

/-!
# What an operation of the emitter has done

The calls of the emitter and its worker, taken apart step by step.  An operation keeps book of
what it has done, and it takes a step only when its book allows it.

* `EnqueueBook`, `ControlBook`, `WorkerBook` — the book as an enqueue, as a flush or a
  shutdown, and as the worker;
* `emitting` — which steps a book permits;
* `enqueue_obeys`, `flush_obeys`, `shutdown_obeys` — what the calls end with;
* `runExportWorker_obeys` — the worker, by induction on its rounds;
* `program_obeys` — every operation keeps to its book.
-/

namespace Rustvello.Telemetry

open Concurrency

variable {Ev : Type}

/-! ## Books -/

/-- What an operation has done as an enqueue. -/
structure EnqueueBook (Ev : Type) where
  event : Option Ev := none
  inFlight : Bool := false
  /-- It has found the emitter open and has not tried to send yet. -/
  admitted : Bool := false
  sent : List Ev := []
  accepted : Nat := 0
  dropped : Nat := 0

namespace EnqueueBook

def next : (c : ExportCall Ev) → c.Ans → EnqueueBook Ev → EnqueueBook Ev
  | .enterEnqueue, _, g => { g with inFlight := true }
  | .leaveEnqueue, _, g => { g with inFlight := false }
  | .loadState, state, g => { g with admitted := g.inFlight && state = .exportOpen }
  | .trySendEvent event, .ok _, g => { g with admitted := false, sent := event :: g.sent }
  | .trySendEvent _, .error _, g => { g with admitted := false }
  | .fetchAdd .accepted n, _, g => { g with accepted := g.accepted + n }
  | .fetchAdd .dropped n, _, g => { g with dropped := g.dropped + n }
  | _, _, g => g

/-- What it has sent is counted, and it will not send without looking again. -/
structure Settled (g : EnqueueBook Ev) : Prop where
  admitted : g.admitted = false
  accepted : g.accepted = g.sent.length

def Permits : ExportCall Ev → EnqueueBook Ev → Prop
  | .enterEnqueue, g => g.inFlight = false
  | .leaveEnqueue, g => g.inFlight = true ∧ g.Settled
  | .trySendEvent _, g => g.admitted = true
  | .fetchAdd .accepted n, g => g.inFlight = true ∧ n = 1 ∧ g.sent.length = g.accepted + 1
  | .fetchMax counter _, _ => counter = .enqueueNanosMax
  | _, _ => True

/-- Outside of its flight an enqueue is settled. -/
structure Sound (g : EnqueueBook Ev) : Prop where
  admitted : g.admitted = true → g.inFlight = true
  settled : g.inFlight = false → g.Settled

/-- An enqueue that has returned: its event was sent and counted once, or dropped. -/
def Returned (g : EnqueueBook Ev) : Prop :=
  ∀ event, g.event = some event →
    (g.sent = [event] ∧ g.accepted = 1 ∧ g.dropped = 0) ∨
      (g.sent = [] ∧ g.accepted = 0 ∧ g.dropped = 1)

end EnqueueBook

inductive CallKind where
  | flush
  | shutdown
  | other
deriving DecidableEq

/-- What an operation has done as a flush or a shutdown. -/
structure ControlBook where
  kind : CallKind := .other
  closing : Bool := false
  /-- It has found no enqueue in flight. -/
  idle : Bool := false
  /-- It has been admitted as the shutdown, and has not handed it over yet. -/
  chosen : Bool := false
  /-- It has found the emitter closed. -/
  closed : Bool := false
  loaded : Counter → Option Nat := fun _ => none
  receiver : Option Nat := none
  answered : Bool := false

namespace ControlBook

def next : (c : ExportCall Ev) → c.Ans → ControlBook → ControlBook
  | .closeState, _, g => { g with closing := true }
  | .loadInFlight, n, g => { g with idle := g.idle || n = 0 }
  | .admitShutdown, chosen, g => { g with chosen := chosen }
  | .loadState, state, g => { g with closed := g.closed || state = .exportClosed }
  | .load counter, n, g => { g with loaded := Function.update g.loaded counter (some n) }
  | .trySendFlush _, .ok receiver, g => { g with receiver := some receiver }
  | .trySendShutdown _, _, g => { g with chosen := false }
  | .recvResponse _, some _, g => { g with answered := true }
  | _, _, g => g

def Permits : ExportCall Ev → ControlBook → Prop
  | .loadInFlight, g => g.kind = .shutdown → g.closing = true
  | .admitShutdown, g => g.kind = .shutdown ∧ g.idle = true ∧ g.chosen = false
  | .load .accepted, g => (g.kind = .shutdown → g.idle = true) ∧
      (g.kind = .flush → g.idle = true) ∧ g.receiver = none
  | .load .exported, g => g.kind = .shutdown → g.idle = true ∧ g.closed = true
  | .load .exportFailed, g => g.kind = .shutdown → g.idle = true ∧ g.closed = true
  | .trySendFlush target, g => g.receiver = none ∧ g.loaded .accepted = some target
  | .trySendShutdown target, g => g.chosen = true ∧ g.loaded .accepted = some target
  | .recvResponse response, g => g.receiver = some response
  | _, _ => True

/-- A shutdown that has found no enqueue in flight. -/
def Quiet (g : ControlBook) : Prop :=
  g.kind = .shutdown ∧ g.idle = true

end ControlBook

inductive WorkerStage where
  | running
  | shut
  | closed
deriving DecidableEq

/-- What the worker has done. -/
structure WorkerBook (Ev : Type) where
  /-- Taken from the channel and not exported yet. -/
  batch : List Ev := []
  /-- The size of an exported batch that is not counted yet. -/
  unsettled : Nat := 0
  processed : Nat := 0
  pendingFlush : Option FlushCommand := none
  pendingShutdown : Option Nat := none
  /-- It has found every emitter gone. -/
  disconnected : Bool := false
  stage : WorkerStage := .running

namespace WorkerBook

def next : (c : ExportCall Ev) → c.Ans → WorkerBook Ev → WorkerBook Ev
  | .tryRecvShutdown, target, w => { w with pendingShutdown := target }
  | .tryRecvFlush, command, w => { w with pendingFlush := command }
  | .recvEvent, .ok event, w => { w with batch := w.batch ++ [event] }
  | .recvEvent, .error .disconnected, w => { w with disconnected := true }
  | .tryRecvEvent, some event, w => { w with batch := w.batch ++ [event] }
  | .exportEvents batch, _, w => { w with batch := [], unsettled := batch.length }
  | .fetchAdd .exported n, _, w => { w with unsettled := 0, processed := w.processed + n }
  | .fetchAdd .exportFailed n, _, w => { w with unsettled := 0, processed := w.processed + n }
  | .respond _ _, _, w => { w with pendingFlush := none }
  | .shutdownExporter, _, w => { w with stage := .shut }
  | .storeClosed, _, w => { w with stage := .closed }
  | _, _, w => w

/-- The exporter may be shut down. -/
def MayFinish (w : WorkerBook Ev) : Prop :=
  (∃ target, w.pendingShutdown = some target ∧ target ≤ w.processed) ∨ w.disconnected = true

def Permits (config : AsyncExportConfig) : ExportCall Ev → WorkerBook Ev → Prop
  | .tryRecvShutdown, w => w.stage = .running ∧ w.pendingShutdown = none
  | .tryRecvFlush, w => w.stage = .running ∧ w.pendingFlush = none
  | .recvEvent, w => w.stage = .running ∧ w.batch = [] ∧ w.unsettled = 0
  | .tryRecvEvent, w =>
      w.stage = .running ∧ w.unsettled = 0 ∧ w.batch.length < config.maxBatchSize
  | .exportEvents batch, w =>
      w.stage = .running ∧ w.unsettled = 0 ∧ batch = w.batch ∧ batch ≠ []
  | .fetchAdd .exported n, w => w.stage = .running ∧ n = w.unsettled ∧ w.batch = []
  | .fetchAdd .exportFailed n, w => w.stage = .running ∧ n = w.unsettled ∧ w.batch = []
  | .respond response _, w =>
      ∃ command, w.pendingFlush = some command ∧ command.response = response ∧
        command.target ≤ w.processed
  | .shutdownExporter, w =>
      w.stage = .running ∧ w.batch = [] ∧ w.unsettled = 0 ∧ w.MayFinish
  | .storeClosed, w => w.stage = .shut
  | .dropShutdowns, w => w.stage = .closed
  | _, _ => True

end WorkerBook

/-- The steps that only the worker takes. -/
def ExportCall.byWorker : ExportCall Ev → Bool
  | .tryRecvShutdown | .tryRecvFlush | .recvEvent | .tryRecvEvent | .exportEvents _
  | .fetchAdd .exported _ | .fetchAdd .exportFailed _ | .respond _ _ | .shutdownExporter
  | .storeClosed | .dropShutdowns => true
  | _ => false

/-- The steps that only callers take. -/
def ExportCall.byCaller : ExportCall Ev → Bool
  | .trySendEvent _ | .trySendShutdown _ => true
  | _ => false

/-- The book of an operation. -/
structure Book (Ev : Type) where
  enqueue : EnqueueBook Ev := {}
  control : ControlBook := {}
  worker : Option (WorkerBook Ev) := none

/-- What an operation has to do with: an event, the control channels, or the work. -/
def EmitterTask.book : EmitterTask Ev → Book Ev
  | .enqueue event _ => { enqueue := { event := some event } }
  | .flush _ => { control := { kind := .flush } }
  | .shutdown _ => { control := { kind := .shutdown } }
  | .worker _ => { worker := some {} }
  | .stats | .dropEmitter => {}

/-- How the operations of an emitter proceed.  A shutdown is handed over without fail. -/
def emitting (Ev : Type) (config : AsyncExportConfig) :
    Discipline (exportCalls Ev) (EmitterTask Ev) (Book Ev) where
  start := EmitterTask.book
  next c r g := ⟨g.enqueue.next c r, g.control.next c r, g.worker.map (WorkerBook.next c r)⟩
  pre c g := g.enqueue.Permits c ∧ g.control.Permits c ∧
    (∀ w ∈ g.worker, w.Permits config c) ∧ (c.byWorker = true → g.worker.isSome = true) ∧
    (c.byCaller = true → g.worker = none)
  resp c _ r :=
    match c, r with
    | .trySendShutdown _, r => r = .ok ()
    | _, _ => True

section Programs

variable {config : AsyncExportConfig} {α β : Type} {Q : β → Book Ev → Prop} {g : Book Ev}
  {c : ExportCall Ev}

/-- One step, then the rest. -/
theorem obeys_step {k : c.Ans → Prog (exportCalls Ev) β} :
    (emitting Ev config).Obeys (request c >>= k) Q g ↔ (emitting Ev config).pre c g ∧
      ∀ r, (emitting Ev config).resp c g r →
        (emitting Ev config).Obeys (k r) Q ((emitting Ev config).next c r g) :=
  Iff.rfl

theorem obeysE_step {k : c.Ans → EmitterCall Ev β} {E : String → Book Ev → Prop} :
    (emitting Ev config).ObeysE (ask c >>= k) Q E g ↔ (emitting Ev config).pre c g ∧
      ∀ r, (emitting Ev config).resp c g r →
        (emitting Ev config).ObeysE (k r) Q E ((emitting Ev config).next c r g) := by
  rw [ask, Discipline.obeysE_bind, Discipline.obeysE_lift]
  exact Iff.rfl

/-- What a caller has to show before a step. -/
theorem permitted_of_caller (hworker : g.worker = none) (hkind : c.byWorker = false)
    (henqueue : g.enqueue.Permits c)
    (hcontrol : g.control.Permits c) : (emitting Ev config).pre c g := by
  refine ⟨henqueue, hcontrol, ?_, ?_, fun _ => hworker⟩
  · simp [hworker]
  · simp [hkind]

/-! ### Callers -/

/-- An enqueue counts its event once, as accepted or as dropped. -/
theorem enqueue_obeys (event : Ev) (elapsed : Nat) :
    (emitting Ev config).Obeys (enqueue event elapsed) (fun _ g => g.enqueue.Returned)
      (EmitterTask.enqueue event elapsed).book := by
  refine obeys_step.mpr ⟨permitted_of_caller rfl rfl rfl trivial, fun _ _ => ?_⟩
  refine obeys_step.mpr ⟨permitted_of_caller rfl rfl trivial trivial, fun state _ => ?_⟩
  have hleave : ∀ g : Book Ev, g.worker = none →
      g.enqueue.inFlight = true ∧ g.enqueue.Settled → g.enqueue.Returned →
      (emitting Ev config).Obeys (do
        request .leaveEnqueue
        request (.fetchAdd .enqueueNanosTotal elapsed)
        request (.fetchMax .enqueueNanosMax elapsed))
        (fun _ g => g.enqueue.Returned) g := by
    intro g hworker hsettled hreturned
    refine obeys_step.mpr ⟨permitted_of_caller hworker rfl hsettled trivial, fun _ _ => ?_⟩
    refine obeys_step.mpr ⟨permitted_of_caller ?_ rfl trivial trivial, fun _ _ => ?_⟩
    · simp [emitting, hworker]
    · refine ⟨permitted_of_caller ?_ rfl rfl trivial, fun _ _ => hreturned⟩
      simp [emitting, hworker]
  -- however the event fared, it is counted before the call leaves
  dsimp only
  by_cases hopen : state = .exportOpen
  · rw [if_neg (by simpa using hopen)]
    refine obeys_step.mpr ⟨permitted_of_caller rfl rfl ?_ trivial, fun sending _ => ?_⟩
    · simp [emitting, EmitterTask.book, EnqueueBook.next, EnqueueBook.Permits, hopen]
    · cases sending with
      | ok _ =>
          refine obeys_step.mpr ⟨permitted_of_caller rfl rfl ⟨rfl, rfl, rfl⟩ trivial, fun _ _ => ?_⟩
          refine hleave _ rfl ⟨rfl, rfl, rfl⟩ ?_
          rintro e ⟨⟩
          exact .inl ⟨rfl, rfl, rfl⟩
      | error _ =>
          refine obeys_step.mpr ⟨permitted_of_caller rfl rfl trivial trivial, fun _ _ => ?_⟩
          refine hleave _ rfl ⟨rfl, rfl, rfl⟩ ?_
          rintro e ⟨⟩
          exact .inr ⟨rfl, rfl, rfl⟩
  · rw [if_pos hopen]
    refine obeys_step.mpr ⟨permitted_of_caller rfl rfl trivial trivial, fun _ _ => ?_⟩
    refine obeys_step.mpr ⟨permitted_of_caller rfl rfl trivial trivial, fun _ _ => ?_⟩
    refine hleave _ rfl ⟨rfl, ?_, rfl⟩ ?_
    · simp [emitting, EnqueueBook.next, hopen]
    · rintro e ⟨⟩
      exact .inr ⟨rfl, rfl, rfl⟩

/-- The book after some loads. -/
def Book.loading (g : Book Ev) (loaded : Counter → Option Nat) : Book Ev :=
  { g with control := { g.control with loaded := loaded } }

theorem next_load (counter : Counter) (n : Nat) (g : Book Ev) (loaded : Counter → Option Nat) :
    (emitting Ev config).next (.load counter) n (g.loading loaded) =
      g.loading (Function.update loaded counter (some n)) := by
  obtain ⟨e, c, _ | w⟩ := g <;> rfl

/-- Reading the counters leaves the values in the book. -/
theorem stats_obeys (hmay : ∀ counter loaded, (g.loading loaded).control.Permits
    (ExportCall.load counter : ExportCall Ev)) :
    (emitting Ev config).Obeys stats (fun st g' => ∃ loaded, g' = g.loading loaded ∧
      loaded .accepted = some st.accepted ∧ loaded .exported = some st.exported ∧
      loaded .exportFailed = some st.exportFailed) g := by
  have hload : ∀ counter loaded, (emitting Ev config).pre (.load counter) (g.loading loaded) := by
    intro counter loaded
    exact ⟨trivial, hmay counter loaded, fun _ _ => trivial, nofun, nofun⟩
  have hself : g = g.loading g.control.loaded := rfl
  rw [hself]
  refine obeys_step.mpr ⟨hload _ _, fun accepted _ => ?_⟩
  rw [next_load]
  refine obeys_step.mpr ⟨hload _ _, fun dropped _ => ?_⟩
  rw [next_load]
  refine obeys_step.mpr ⟨hload _ _, fun exported _ => ?_⟩
  rw [next_load]
  refine obeys_step.mpr ⟨hload _ _, fun exportFailed _ => ?_⟩
  rw [next_load]
  refine obeys_step.mpr ⟨hload _ _, fun rejected _ => ?_⟩
  rw [next_load]
  refine obeys_step.mpr ⟨hload _ _, fun total _ => ?_⟩
  rw [next_load]
  refine obeys_step.mpr ⟨hload _ _, fun max _ => ?_⟩
  rw [next_load]
  exact (Discipline.obeys_pure _ _ _ _).mpr ⟨_, rfl, rfl, rfl, rfl⟩

/-- A flush or a shutdown: it enqueues nothing. -/
structure Book.Controls (g : Book Ev) : Prop where
  event : g.enqueue.event = none
  worker : g.worker = none

/-- The book after no enqueue was found in flight. -/
def Book.idled (g : Book Ev) : Book Ev :=
  { g with control := { g.control with idle := true } }

theorem next_loadInFlight (n : Nat) (hworker : g.worker = none) :
    (emitting Ev config).next .loadInFlight n g = if n = 0 then g.idled else g := by
  obtain ⟨e, c, w⟩ := g
  obtain rfl : w = none := hworker
  split <;> simp_all [emitting, EnqueueBook.next, ControlBook.next, Book.idled]

theorem awaitIdle_obeys (timedOut : String) (polls : Nat) (hg : g.Controls)
    (hclosing : g.control.kind = .shutdown → g.control.closing = true) :
    (emitting Ev config).ObeysE (awaitIdle timedOut polls) (fun _ g' => g' = g.idled)
      (fun _ g' => g'.Controls) g := by
  have hpre : (emitting Ev config).pre .loadInFlight g :=
    permitted_of_caller hg.worker rfl trivial hclosing
  induction polls with
  | zero =>
      refine obeysE_step.mpr ⟨hpre, fun n _ => ?_⟩
      rw [next_loadInFlight n hg.worker]
      by_cases hn : n = 0
      · rw [if_pos hn, if_neg (by simpa using hn)]
        exact Discipline.obeysE_pure.mpr rfl
      · rw [if_neg hn, if_pos hn]
        exact Discipline.obeysE_throw.mpr hg
  | succ polls ih =>
      refine obeysE_step.mpr ⟨hpre, fun n _ => ?_⟩
      rw [next_loadInFlight n hg.worker]
      by_cases hn : n = 0
      · rw [if_pos hn, if_neg (by simpa using hn)]
        exact Discipline.obeysE_pure.mpr rfl
      · rw [if_neg hn, if_pos hn]
        exact ih

/-- A flush returns a snapshot that was sent in response to its own command. -/
theorem flush_obeys (polls : Nat) :
    (emitting Ev config).ObeysE (flush polls)
      (fun _ g => g.control.answered = true ∧ g.Controls) (fun _ g => g.Controls)
      (EmitterTask.flush polls : EmitterTask Ev).book := by
  refine obeysE_step.mpr ⟨permitted_of_caller rfl rfl trivial trivial, fun state _ => ?_⟩
  split
  · exact Discipline.obeysE_throw.mpr ⟨rfl, rfl⟩
  · refine (awaitIdle_obeys _ polls ⟨rfl, rfl⟩ fun h => by cases h).bind ?_
    rintro _ g rfl
    refine obeysE_step.mpr ⟨permitted_of_caller rfl rfl trivial ⟨fun _ => rfl, fun _ => rfl, rfl⟩,
      fun target _ => ?_⟩
    refine obeysE_step.mpr ⟨permitted_of_caller rfl rfl trivial ⟨rfl, rfl⟩, fun sending _ => ?_⟩
    rcases sending with (_ | _) | receiver
    · exact Discipline.obeysE_throw.mpr ⟨rfl, rfl⟩
    · exact Discipline.obeysE_throw.mpr ⟨rfl, rfl⟩
    · refine obeysE_step.mpr ⟨permitted_of_caller rfl rfl trivial rfl, fun found _ => ?_⟩
      cases found with
      | none => exact Discipline.obeysE_throw.mpr ⟨rfl, rfl⟩
      | some snapshot => exact Discipline.obeysE_pure.mpr ⟨rfl, rfl, rfl⟩

/-- A shutdown that has found no enqueue in flight. -/
structure Book.Stopping (g : Book Ev) : Prop extends g.Controls where
  quiet : g.control.Quiet
  receiver : g.control.receiver = none

/-- The counters as a shutdown has read them, after it has found the emitter closed. -/
structure Book.Stopped (g : Book Ev) (st : AsyncExportStats) : Prop extends g.Stopping where
  closed : g.control.closed = true
  accepted : g.control.loaded .accepted = some st.accepted
  exported : g.control.loaded .exported = some st.exported
  exportFailed : g.control.loaded .exportFailed = some st.exportFailed

theorem awaitClosed_obeys (polls : Nat) (hg : g.Stopping) :
    (emitting Ev config).ObeysE (awaitClosed polls)
      (fun _ g' => g'.Stopping ∧ g'.control.closed = true) (fun _ g' => g'.Controls) g := by
  have hnext : ∀ (g : Book Ev) state, g.Stopping →
      ((emitting Ev config).next .loadState state g).Stopping ∧
        (state = .exportClosed →
          ((emitting Ev config).next .loadState state g).control.closed = true) := by
    intro g state hg
    refine ⟨⟨⟨hg.event, ?_⟩, hg.quiet, hg.receiver⟩, ?_⟩
    · simp [emitting, hg.worker]
    · rintro rfl
      simp [emitting, ControlBook.next]
  have hpre : ∀ g : Book Ev, g.Stopping → (emitting Ev config).pre .loadState g :=
    fun g hg => permitted_of_caller hg.worker rfl trivial trivial
  induction polls generalizing g with
  | zero =>
      refine obeysE_step.mpr ⟨hpre g hg, fun state _ => ?_⟩
      obtain ⟨hstopping, hclosed⟩ := hnext g state hg
      split
      · exact Discipline.obeysE_throw.mpr hstopping.toControls
      · rename_i hstate
        exact Discipline.obeysE_pure.mpr ⟨hstopping, hclosed (by simpa using hstate)⟩
  | succ polls ih =>
      refine obeysE_step.mpr ⟨hpre g hg, fun state _ => ?_⟩
      obtain ⟨hstopping, hclosed⟩ := hnext g state hg
      split
      · exact ih hstopping
      · rename_i hstate
        exact Discipline.obeysE_pure.mpr ⟨hstopping, hclosed (by simpa using hstate)⟩

/-- Joining the worker leaves the book as it is. -/
theorem awaitWorker_obeys (polls : Nat) (hg : g.Controls) :
    (emitting Ev config).ObeysE (awaitWorker polls) (fun _ g' => g' = g)
      (fun _ g' => g'.Controls) g := by
  have hnext : ∀ found, (emitting Ev config).next .joinWorker found g = g := by
    intro found
    obtain ⟨e, c, w⟩ := g
    obtain rfl : w = none := hg.worker
    rfl
  have hpre : (emitting Ev config).pre .joinWorker g :=
    permitted_of_caller hg.worker rfl trivial trivial
  induction polls with
  | zero =>
      unfold awaitWorker
      refine obeysE_step.mpr ⟨hpre, fun found _ => ?_⟩
      rw [hnext]
      rcases found with _ | _ | (_ | _)
      · exact Discipline.obeysE_pure.mpr rfl
      · exact Discipline.obeysE_throw.mpr hg
      · exact Discipline.obeysE_pure.mpr rfl
      · exact Discipline.obeysE_throw.mpr hg
  | succ polls ih =>
      unfold awaitWorker
      refine obeysE_step.mpr ⟨hpre, fun found _ => ?_⟩
      rw [hnext]
      rcases found with _ | _ | (_ | _)
      · exact Discipline.obeysE_pure.mpr rfl
      · exact ih
      · exact Discipline.obeysE_pure.mpr rfl
      · exact Discipline.obeysE_throw.mpr hg

/-- The shutdown is handed over once, with the number of accepted events. -/
theorem sendShutdown_obeys (hg : g.Stopping) (hchosen : g.control.chosen = true) :
    (emitting Ev config).ObeysE sendShutdown (fun _ g' => g'.Stopping)
      (fun _ g' => g'.Controls) g := by
  obtain ⟨e, c, w⟩ := g
  obtain rfl : w = none := hg.worker
  refine obeysE_step.mpr ⟨permitted_of_caller rfl rfl trivial
    ⟨fun _ => hg.quiet.2, fun _ => hg.quiet.2, hg.receiver⟩, fun target _ => ?_⟩
  refine obeysE_step.mpr ⟨permitted_of_caller rfl rfl trivial ⟨hchosen, ?_⟩,
    fun sending hsent => ?_⟩
  · simp [emitting, ControlBook.next]
  · obtain rfl : sending = .ok () := hsent
    exact Discipline.obeysE_pure.mpr ⟨⟨hg.event, rfl⟩, hg.quiet, hg.receiver⟩

/-- The end of a shutdown: nothing is in flight, and the command is sent or another's. -/
theorem awaitStopped_obeys (patience : Patience) {g : Book Ev} (hg : g.Stopping) :
    (emitting Ev config).ObeysE (do
      awaitClosed patience.closed
      awaitWorker patience.worker
      match ← ask .readShutdownError with
      | some error => throw error
      | none => ExceptT.lift stats) (fun st g => g.Stopped st) (fun _ g => g.Controls) g := by
  refine (awaitClosed_obeys patience.closed hg).bind ?_
  rintro _ g ⟨hg, hclosed⟩
  refine (awaitWorker_obeys patience.worker hg.toControls).bind ?_
  rintro _ g rfl
  obtain ⟨e, c, w⟩ := g
  obtain rfl : w = none := hg.worker
  refine obeysE_step.mpr ⟨permitted_of_caller rfl rfl trivial trivial, fun found _ => ?_⟩
  cases found with
  | some error => exact Discipline.obeysE_throw.mpr ⟨hg.event, rfl⟩
  | none =>
      refine Discipline.obeysE_lift.mpr ((stats_obeys ?_).mono ?_)
      · intro counter loaded
        cases counter with
        | accepted => exact ⟨fun _ => hg.quiet.2, fun _ => hg.quiet.2, hg.receiver⟩
        | exported => exact fun _ => ⟨hg.quiet.2, hclosed⟩
        | exportFailed => exact fun _ => ⟨hg.quiet.2, hclosed⟩
        | _ => trivial
      · rintro st _ ⟨loaded, rfl, haccepted, hexported, hfailed⟩
        exact ⟨⟨⟨hg.event, rfl⟩, hg.quiet, hg.receiver⟩, hclosed, haccepted, hexported, hfailed⟩

/-- What a shutdown returns was read after the emitter was found closed. -/
theorem shutdown_obeys (patience : Patience) :
    (emitting Ev config).ObeysE (shutdown patience) (fun st g => g.Stopped st)
      (fun _ g => g.Controls) (EmitterTask.shutdown patience : EmitterTask Ev).book := by
  refine obeysE_step.mpr ⟨permitted_of_caller rfl rfl trivial trivial, fun _ _ => ?_⟩
  refine (awaitIdle_obeys _ patience.idle ⟨rfl, rfl⟩ fun _ => rfl).bind ?_
  rintro _ g rfl
  refine obeysE_step.mpr ⟨permitted_of_caller rfl rfl trivial ⟨rfl, rfl, rfl⟩,
    fun admitted _ => ?_⟩
  cases admitted with
  | true =>
      refine (sendShutdown_obeys ⟨⟨rfl, rfl⟩, ⟨rfl, rfl⟩, rfl⟩ rfl).bind ?_
      intro _ g hg
      exact awaitStopped_obeys patience hg
  | false => exact awaitStopped_obeys patience ⟨⟨rfl, rfl⟩, ⟨rfl, rfl⟩, rfl⟩

/-! ### The worker -/

/-- The book of the worker. -/
structure Book.Working (g : Book Ev) (w : WorkerBook Ev) : Prop where
  event : g.enqueue.event = none
  kind : g.control.kind = .other
  receiver : g.control.receiver = none
  worker : g.worker = some w

theorem EnqueueBook.next_event (c : ExportCall Ev) (r : c.Ans) (g : EnqueueBook Ev) :
    (g.next c r).event = g.event := by
  cases c with
  | trySendEvent event => cases r <;> rfl
  | fetchAdd counter n => cases counter <;> rfl
  | _ => rfl

theorem ControlBook.next_kind (c : ExportCall Ev) (r : c.Ans) (g : ControlBook) :
    (g.next c r).kind = g.kind := by
  cases c with
  | trySendFlush target => cases r <;> rfl
  | recvResponse response => cases r <;> rfl
  | _ => rfl

/-- Only a command that was sent has a receiver. -/
theorem ControlBook.next_receiver (c : ExportCall Ev) (r : c.Ans) (g : ControlBook) :
    (g.next c r).receiver = g.receiver ∨ ∃ target, c = .trySendFlush target := by
  cases c with
  | trySendFlush target => exact .inr ⟨target, rfl⟩
  | recvResponse response => cases r <;> exact .inl rfl
  | _ => exact .inl rfl

section Worker

variable {w : WorkerBook Ev}

theorem permitted_of_worker {c : ExportCall Ev} (hg : g.Working w)
    (henqueue : g.enqueue.Permits c) (hcontrol : g.control.Permits c)
    (hwork : w.Permits config c) (hcaller : c.byCaller = false) :
    (emitting Ev config).pre c g := by
  refine ⟨henqueue, hcontrol, ?_, ?_, ?_⟩
  · intro w' hw'
    rw [hg.worker] at hw'
    cases hw'
    exact hwork
  · simp [hg.worker]
  · simp [hcaller]

/-- A step of the worker, then the rest. -/
theorem working_step {c : ExportCall Ev} {k : c.Ans → Prog (exportCalls Ev) β}
    (hg : g.Working w) (henqueue : g.enqueue.Permits c) (hcontrol : g.control.Permits c)
    (hwork : w.Permits config c) (hcaller : c.byCaller = false)
    (hflush : ∀ target, c ≠ .trySendFlush target)
    (hk : ∀ r g', Book.Working g' (w.next c r) → (emitting Ev config).Obeys (k r) Q g') :
    (emitting Ev config).Obeys (request c >>= k) Q g := by
  refine obeys_step.mpr ⟨permitted_of_worker hg henqueue hcontrol hwork hcaller, fun r _ => hk r _ ?_⟩
  refine ⟨?_, ?_, ?_, ?_⟩
  · exact (EnqueueBook.next_event c r g.enqueue).trans hg.event
  · exact (ControlBook.next_kind c r g.control).trans hg.kind
  · obtain hreceiver | ⟨target, hc⟩ := ControlBook.next_receiver c r g.control
    · exact hreceiver.trans hg.receiver
    · exact absurd hc (hflush target)
  · show g.worker.map _ = _
    rw [hg.worker]
    rfl

theorem working_stats (hg : g.Working w) :
    (emitting Ev config).Obeys stats (fun _ g' => g'.Working w) g := by
  refine (stats_obeys ?_).mono ?_
  · intro counter loaded
    have hother : ∀ kind, g.control.kind = kind → kind ≠ .other → False :=
      fun kind h hne => hne (h.symm.trans hg.kind)
    cases counter with
    | accepted =>
        exact ⟨fun h => (hother _ h (by decide)).elim, fun h => (hother _ h (by decide)).elim,
          hg.receiver⟩
    | exported => exact fun h => (hother _ h (by decide)).elim
    | exportFailed => exact fun h => (hother _ h (by decide)).elim
    | _ => trivial
  · rintro st _ ⟨loaded, rfl, -⟩
    exact ⟨hg.event, hg.kind, hg.receiver, hg.worker⟩

/-- The exporter is shut down with nothing left to export. -/
theorem finishExporter_obeys (hg : g.Working w) (hstage : w.stage = .running)
    (hbatch : w.batch = []) (hunsettled : w.unsettled = 0) (hfinish : w.MayFinish) :
    (emitting Ev config).Obeys finishExporter (fun _ g' => g'.enqueue.event = none) g := by
  refine working_step hg trivial trivial ⟨hstage, hbatch, hunsettled, hfinish⟩
    rfl nofun fun outcome g hg => ?_
  refine working_step hg trivial trivial trivial rfl nofun fun _ g hg => ?_
  refine working_step hg trivial trivial rfl rfl nofun fun _ g hg => ?_
  refine working_step hg trivial trivial trivial rfl nofun fun _ g hg => ?_
  refine working_step hg trivial trivial trivial rfl nofun fun _ g hg => ?_
  refine working_step hg trivial trivial rfl rfl nofun fun _ g hg => ?_
  exact ⟨permitted_of_worker hg trivial trivial trivial rfl, fun _ _ => hg.event⟩

theorem fillBatch_obeys (room : Nat) (hg : g.Working w) (hstage : w.stage = .running)
    (hunsettled : w.unsettled = 0) (hroom : w.batch.length + room ≤ config.maxBatchSize) :
    (emitting Ev config).Obeys (fillBatch room w.batch)
      (fun batch g' => g'.Working { w with batch := batch }) g := by
  induction room generalizing g w with
  | zero => exact (Discipline.obeys_pure _ _ _ _).mpr hg
  | succ room ih =>
      refine working_step hg trivial trivial ⟨hstage, hunsettled, by omega⟩ rfl nofun
        fun found g hg => ?_
      cases found with
      | none => exact (Discipline.obeys_pure _ _ _ _).mpr hg
      | some event =>
          refine ih (w := { w with batch := w.batch ++ [event] }) hg hstage hunsettled ?_
          simp only [List.length_append, List.length_singleton]
          omega

/-- The book after a batch of the given size was exported and counted. -/
def WorkerBook.counted (w : WorkerBook Ev) (count : Nat) : WorkerBook Ev :=
  { w with batch := [], unsettled := 0, processed := w.processed + count }

/-- A batch is exported and counted as a whole. -/
theorem exportBatch_obeys (hg : g.Working w) (hstage : w.stage = .running)
    (hunsettled : w.unsettled = 0) :
    (emitting Ev config).Obeys (exportBatch w.batch)
      (fun count g' => g'.Working (w.counted count)) g := by
  unfold exportBatch
  split
  · rename_i hempty
    have hbatch : w.batch = [] := by simpa using hempty
    have hcounted : w.counted 0 = w := by
      obtain ⟨batch, unsettled⟩ := w
      obtain rfl : batch = [] := hbatch
      obtain rfl : unsettled = 0 := hunsettled
      rfl
    refine (Discipline.obeys_pure _ _ _ _).mpr ?_
    rw [hcounted]
    exact hg
  · rename_i hnonempty
    have hne : w.batch ≠ [] := by simpa using hnonempty
    refine working_step hg trivial trivial ⟨hstage, hunsettled, rfl, hne⟩ rfl nofun
      fun outcome g hg => ?_
    by_cases hok : outcome = .ok
    · rw [if_pos hok]
      refine working_step hg trivial trivial ⟨hstage, rfl, rfl⟩ rfl nofun
        fun _ g hg => ?_
      exact (Discipline.obeys_pure _ _ _ _).mpr hg
    · rw [if_neg hok]
      refine working_step hg trivial trivial ⟨hstage, rfl, rfl⟩ rfl nofun
        fun _ g hg => ?_
      exact (Discipline.obeys_pure _ _ _ _).mpr hg

/-- The book of the worker, with its local variables as given. -/
def WorkerLocals.book (l : WorkerLocals) (batch : List Ev) (disconnected : Bool) : WorkerBook Ev where
  batch := batch
  processed := l.processed
  pendingFlush := l.pendingFlush
  pendingShutdown := l.pendingShutdown
  disconnected := disconnected

variable (l : WorkerLocals)

theorem pollCommands_obeys (hg : g.Working (l.book [] false)) :
    (emitting Ev config).Obeys (pollCommands l) (fun l' g' => g'.Working (l'.book [] false)) g := by
  have hflush : ∀ (l : WorkerLocals) (g : Book Ev), g.Working (l.book [] false) →
      (emitting Ev config).Obeys (do
        let pendingFlush ← if l.pendingFlush.isNone && l.pendingShutdown.isNone then
          request .tryRecvFlush else pure l.pendingFlush
        pure { l with pendingFlush := pendingFlush }) (fun l' g' => g'.Working (l'.book [] false)) g := by
    intro l g hg
    split
    · rename_i hnone
      refine working_step hg trivial trivial ⟨rfl, ?_⟩ rfl nofun fun command g hg => ?_
      · simp only [Bool.and_eq_true, Option.isNone_iff_eq_none] at hnone
        exact hnone.1
      · exact (Discipline.obeys_pure _ _ _ _).mpr hg
    · exact (Discipline.obeys_pure _ _ _ _).mpr hg
  obtain ⟨processed, pendingFlush, _ | target⟩ := l
  · refine working_step hg trivial trivial ⟨rfl, rfl⟩ rfl nofun fun found g hg => ?_
    exact hflush ⟨processed, pendingFlush, found⟩ g hg
  · exact hflush ⟨processed, pendingFlush, some target⟩ g hg

theorem respondFlush_obeys (snapshot : AsyncExportStats) (hg : g.Working (l.book [] false)) :
    (emitting Ev config).Obeys (respondFlush l snapshot) (fun l' g' => g'.Working (l'.book [] false)) g := by
  obtain ⟨processed, _ | command, pendingShutdown⟩ := l
  · exact (Discipline.obeys_pure _ _ _ _).mpr hg
  · unfold respondFlush
    dsimp only
    split
    · rename_i htarget
      refine working_step hg trivial trivial ⟨command, rfl, rfl, htarget⟩ rfl nofun
        fun _ g hg => ?_
      exact (Discipline.obeys_pure _ _ _ _).mpr hg
    · exact (Discipline.obeys_pure _ _ _ _).mpr hg

theorem exportRound_obeys (hg : g.Working (l.book [] false)) :
    (emitting Ev config).Obeys (exportRound config l) (fun
      | none, g' => g'.Working (l.book [] true)
      | some l', g' => g'.Working (l'.book [] false)) g := by
  have hrest : ∀ (first : List Ev) (g : Book Ev), first.length ≤ 1 →
      g.Working (l.book first false) → (emitting Ev config).Obeys (do
        let batch ← fillBatch (config.maxBatchSize - first.length) first
        let count ← exportBatch batch
        let snapshot ← stats
        let l ← respondFlush { l with processed := l.processed + count } snapshot
        pure (some l)) (fun
          | none, g' => g'.Working (l.book [] true)
          | some l', g' => g'.Working (l'.book [] false)) g := by
    intro first g hfirst hg
    have hmax := config.maxBatchSize_pos
    refine (fillBatch_obeys (config.maxBatchSize - first.length) hg rfl rfl ?_).bind ?_
    · show first.length + _ ≤ _
      omega
    · intro batch g hg
      refine (exportBatch_obeys hg rfl rfl).bind fun count g hg => ?_
      refine (working_stats hg).bind fun snapshot g hg => ?_
      refine (respondFlush_obeys { l with processed := l.processed + count } snapshot hg).bind ?_
      intro l' g hg
      exact (Discipline.obeys_pure _ _ _ _).mpr hg
  refine working_step hg trivial trivial ⟨rfl, rfl, rfl⟩ rfl nofun
    fun received g hg => ?_
  rcases received with (_ | _) | event
  · exact hrest [] g (by simp) hg
  · exact (Discipline.obeys_pure _ _ _ _).mpr hg
  · exact hrest [event] g (by simp) hg

theorem runExportWorker_obeys (rounds : Nat) (l : WorkerLocals) (hg : g.Working (l.book [] false)) :
    (emitting Ev config).Obeys (runExportWorker config rounds l)
      (fun _ g' => g'.enqueue.event = none) g := by
  induction rounds generalizing l g with
  | zero => exact (Discipline.obeys_pure _ _ _ _).mpr hg.event
  | succ rounds ih =>
      refine (pollCommands_obeys l hg).bind fun l g hg => ?_
      refine (exportRound_obeys l hg).bind fun round g hg => ?_
      cases round with
      | none => exact finishExporter_obeys hg rfl rfl rfl (.inr rfl)
      | some l =>
          dsimp only
          split
          · rename_i hreached
            refine finishExporter_obeys hg rfl rfl rfl (.inl ?_)
            cases htarget : l.pendingShutdown with
            | none => simp [htarget] at hreached
            | some target => exact ⟨target, htarget, by simpa [htarget, WorkerLocals.book] using hreached⟩
          · exact ih l hg

end Worker

/-- Every operation keeps to its book. -/
theorem program_obeys (task : EmitterTask Ev) :
    (emitting Ev config).Obeys ((exportMachine Ev config).program task)
      (fun _ g => g.enqueue.Returned) task.book := by
  have hnone : ∀ g : Book Ev, g.enqueue.event = none → g.enqueue.Returned := by
    intro g hg event hevent
    rw [hg] at hevent
    cases hevent
  cases task with
  | enqueue event elapsed => exact enqueue_obeys event elapsed
  | flush polls =>
      refine Discipline.Obeys.toUnit (Discipline.Obeys.mono (flush_obeys polls) ?_)
      rintro (_ | _) g hg
      · exact hnone g hg.event
      · exact hnone g hg.2.event
  | shutdown patience =>
      refine Discipline.Obeys.toUnit (Discipline.Obeys.mono (shutdown_obeys patience) ?_)
      rintro (_ | _) g hg
      · exact hnone g hg.event
      · exact hnone g hg.event
  | stats =>
      refine Discipline.Obeys.toUnit ((stats_obeys ?_).mono ?_)
      · intro counter loaded
        cases counter with
        | accepted => exact ⟨nofun, nofun, rfl⟩
        | exported => exact nofun
        | exportFailed => exact nofun
        | _ => trivial
      · rintro st _ ⟨loaded, rfl, -⟩
        exact hnone _ rfl
  | worker rounds =>
      refine (runExportWorker_obeys rounds {} ⟨rfl, rfl, rfl, rfl⟩).mono ?_
      intro _ g hg
      exact hnone g hg
  | dropEmitter => exact ⟨permitted_of_caller rfl rfl trivial trivial, fun _ _ => hnone _ rfl⟩

end Programs

end Rustvello.Telemetry
