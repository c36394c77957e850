import Rustvello.Concurrency.History

/-!
# The telemetry emitter

`BoundedAsyncEmitter` (`observability.rs`) hands lifecycle events over to one worker thread,
which exports them in batches.  Callers and the worker share atomics, a mutex and three
bounded channels, and every access is one step.

* `Channel` — a bounded channel with all that was ever sent on it;
* `ExportInner`, `ExportCall` — what is shared, and the steps on it;
* `enqueue`, `flush`, `shutdown` — the calls of the emitter; a timeout is the number of polls
  it leaves room for;
* `runExportWorker` — the worker, for as many rounds as it is scheduled for;
* `exportMachine`, `emitterGuard` — any number of calls and one worker, up to the drop of the
  last emitter.
-/

namespace Rustvello.Telemetry

open Concurrency

/-! ## Channels -/

/-- A channel: all that was sent on it, oldest first, how much of that was received, and
whether the receiver still exists. -/
structure Channel (α : Type) where
  sent : List α := []
  received : Nat := 0
  connected : Bool := true

/-- `mpsc::TrySendError`. -/
inductive TrySendError where
  | full
  | disconnected
deriving DecidableEq

/-- `mpsc::RecvTimeoutError`. -/
inductive RecvTimeoutError where
  | timeout
  | disconnected
deriving DecidableEq

namespace Channel

variable {α : Type}

def next? (c : Channel α) : Option α :=
  c.sent[c.received]?

def trySend (capacity : Nat) (a : α) (c : Channel α) : Except TrySendError Unit × Channel α :=
  if c.connected = false then (.error .disconnected, c)
  else if capacity ≤ c.sent.length - c.received then (.error .full, c)
  else (.ok (), { c with sent := c.sent ++ [a] })

def tryRecv (c : Channel α) : Option α × Channel α :=
  match c.next? with
  | none => (none, c)
  | some a => (some a, { c with received := c.received + 1 })

/-- The receiver is dropped. -/
def disconnect (c : Channel α) : Channel α :=
  { c with connected := false }

/-- A refused send changes nothing. -/
theorem trySend_cases (capacity : Nat) (a : α) (c : Channel α) :
    c.trySend capacity a = (.ok (), { c with sent := c.sent ++ [a] }) ∨
      ∃ e, c.trySend capacity a = (.error e, c) := by
  unfold trySend
  split
  · exact .inr ⟨_, rfl⟩
  · split
    · exact .inr ⟨_, rfl⟩
    · exact .inl rfl

theorem tryRecv_cases (c : Channel α) :
    (c.sent[c.received]? = none ∧ c.tryRecv = (none, c)) ∨
      ∃ a, c.sent[c.received]? = some a ∧
        c.tryRecv = (some a, { c with received := c.received + 1 }) := by
  unfold tryRecv next?
  cases h : c.sent[c.received]? with
  | none => exact .inl ⟨rfl, rfl⟩
  | some a => exact .inr ⟨a, rfl, rfl⟩

end Channel

/-! ## What is shared -/

structure AsyncExportConfig where
  queueCapacity : Nat
  controlCapacity : Nat
  maxBatchSize : Nat
  /-- What `BoundedAsyncEmitter::new` asserts. -/
  queueCapacity_pos : 0 < queueCapacity
  controlCapacity_pos : 0 < controlCapacity
  maxBatchSize_pos : 0 < maxBatchSize

/-- The counters of `ExportCounters`. -/
inductive Counter where
  | accepted
  | dropped
  | exported
  | exportFailed
  | rejectedAfterShutdown
  | enqueueNanosTotal
  | enqueueNanosMax
deriving DecidableEq

structure AsyncExportStats where
  accepted : Nat
  dropped : Nat
  exported : Nat
  exportFailed : Nat
  rejectedAfterShutdown : Nat
  enqueueNanosTotal : Nat
  enqueueNanosMax : Nat
deriving DecidableEq

/-- A response channel is made for one command and goes with it: it is named by the place of
the command among those sent. -/
structure FlushCommand where
  target : Nat
  response : Nat
deriving DecidableEq

/-- `EXPORT_OPEN`, `EXPORT_CLOSING` and `EXPORT_CLOSED`. -/
inductive ExportState where
  | exportOpen
  | exportClosing
  | exportClosed
deriving DecidableEq

/-- The `JoinHandle` behind its mutex, as a caller of `shutdown` finds it. -/
inductive WorkerHandle where
  | taken
  | running
  | joined (panicked : Bool)
deriving DecidableEq

/-- How a call into the exporter ends. -/
inductive ExporterOutcome where
  | ok
  | failed (message : String)
  | panicked
deriving DecidableEq

structure ExportInner (Ev : Type) where
  events : Channel Ev := {}
  flushes : Channel FlushCommand := {}
  shutdowns : Channel Nat := {}
  counters : Counter → Nat := fun _ => 0
  state : ExportState := .exportOpen
  inFlightEnqueues : Nat := 0
  shutdownAdmitted : Bool := false
  shutdownError : Option String := none
  /-- The worker thread has ended, maybe in a panic. -/
  ended : Option Bool := none
  /-- The handle of the worker has been taken. -/
  joined : Bool := false
  responses : Nat → Option AsyncExportStats := fun _ => none
  /-- The batches passed to the exporter, oldest first. -/
  batches : List (List Ev) := []
  /-- How often the exporter was shut down. -/
  exporterShutdowns : Nat := 0
  /-- An emitter still exists. -/
  live : Bool := true

/-! ## Steps -/

/-- One access to what is shared, or one call into the exporter. -/
inductive ExportCall (Ev : Type) where
  | enterEnqueue
  | leaveEnqueue
  | loadInFlight
  | loadState
  | closeState
  | storeClosed
  | load (counter : Counter)
  | fetchAdd (counter : Counter) (n : Nat)
  | fetchMax (counter : Counter) (n : Nat)
  | trySendEvent (event : Ev)
  | trySendFlush (target : Nat)
  | trySendShutdown (target : Nat)
  | recvResponse (response : Nat)
  | admitShutdown
  | setShutdownError (error : Option String)
  | readShutdownError
  | joinWorker
  | tryRecvShutdown
  | tryRecvFlush
  | recvEvent
  | tryRecvEvent
  | exportEvents (batch : List Ev)
  | respond (response : Nat) (snapshot : AsyncExportStats)
  | shutdownExporter
  | dropEvents
  | dropFlushes
  | dropShutdowns
  | exit
  | dropEmitter
deriving DecidableEq

/-- `trySendFlush` answers with the receiver of the response. -/
abbrev ExportCall.Ans {Ev : Type} : ExportCall Ev → Type
  | .loadInFlight | .load _ => Nat
  | .loadState => ExportState
  | .trySendEvent _ | .trySendShutdown _ => Except TrySendError Unit
  | .trySendFlush _ => Except TrySendError Nat
  | .recvResponse _ => Option AsyncExportStats
  | .admitShutdown => Bool
  | .readShutdownError => Option String
  | .joinWorker => WorkerHandle
  | .tryRecvShutdown => Option Nat
  | .tryRecvFlush => Option FlushCommand
  | .recvEvent => Except RecvTimeoutError Ev
  | .tryRecvEvent => Option Ev
  | .exportEvents _ | .shutdownExporter => ExporterOutcome
  | _ => Unit

abbrev exportCalls (Ev : Type) : Interface := ⟨ExportCall Ev, ExportCall.Ans⟩

instance {Ev : Type} [DecidableEq Ev] : DecidableEq (exportCalls Ev).Op :=
  inferInstanceAs (DecidableEq (ExportCall Ev))

namespace ExportInner

variable {Ev : Type}

/-- The lock section of `shutdown` around the worker's handle. -/
def joinWorker (x : ExportInner Ev) : WorkerHandle × ExportInner Ev :=
  if x.joined then (.taken, x)
  else
    match x.ended with
    | none => (.running, x)
    | some panicked => (.joined panicked, { x with joined := true })

/-- `events.recv_timeout`: a queued event first; without one the deadline passes, unless
every emitter is gone. -/
def recvEvent (x : ExportInner Ev) : Except RecvTimeoutError Ev × ExportInner Ev :=
  match x.events.tryRecv with
  | (some event, events) => (.ok event, { x with events := events })
  | (none, _) => (.error (if x.live then .timeout else .disconnected), x)

/-- Send a command; it carries the place it gets. -/
def trySendFlush (capacity target : Nat) (x : ExportInner Ev) :
    Except TrySendError Nat × ExportInner Ev :=
  let response := x.flushes.sent.length
  match x.flushes.trySend capacity ⟨target, response⟩ with
  | (.ok _, flushes) => (.ok response, { x with flushes := flushes })
  | (.error e, _) => (.error e, x)

/-- One step; `outcome` is what the exporter does where it is called. -/
def exec (config : AsyncExportConfig) (outcome : ExporterOutcome) :
    (c : ExportCall Ev) → ExportInner Ev → c.Ans × ExportInner Ev
  | .enterEnqueue, x => ((), { x with inFlightEnqueues := x.inFlightEnqueues + 1 })
  | .leaveEnqueue, x => ((), { x with inFlightEnqueues := x.inFlightEnqueues - 1 })
  | .loadInFlight, x => (x.inFlightEnqueues, x)
  | .loadState, x => (x.state, x)
  | .closeState, x =>
      ((), if x.state = .exportOpen then { x with state := .exportClosing } else x)
  | .storeClosed, x => ((), { x with state := .exportClosed })
  | .load counter, x => (x.counters counter, x)
  | .fetchAdd counter n, x =>
      ((), { x with counters := Function.update x.counters counter (x.counters counter + n) })
  | .fetchMax counter n, x =>
      ((), { x with counters := Function.update x.counters counter (max (x.counters counter) n) })
  | .trySendEvent event, x =>
      let sending := x.events.trySend config.queueCapacity event
      (sending.1, { x with events := sending.2 })
  | .trySendFlush target, x => x.trySendFlush config.controlCapacity target
  | .trySendShutdown target, x =>
      let sending := x.shutdowns.trySend 1 target
      (sending.1, { x with shutdowns := sending.2 })
  | .recvResponse response, x => (x.responses response, x)
  | .admitShutdown, x => (!x.shutdownAdmitted, { x with shutdownAdmitted := true })
  | .setShutdownError error, x => ((), { x with shutdownError := error })
  | .readShutdownError, x => (x.shutdownError, x)
  | .joinWorker, x => x.joinWorker
  | .tryRecvShutdown, x => (x.shutdowns.tryRecv.1, { x with shutdowns := x.shutdowns.tryRecv.2 })
  | .tryRecvFlush, x => (x.flushes.tryRecv.1, { x with flushes := x.flushes.tryRecv.2 })
  | .recvEvent, x => x.recvEvent
  | .tryRecvEvent, x => (x.events.tryRecv.1, { x with events := x.events.tryRecv.2 })
  | .exportEvents batch, x => (outcome, { x with batches := x.batches ++ [batch] })
  | .respond response snapshot, x =>
      ((), { x with responses := Function.update x.responses response (some snapshot) })
  | .shutdownExporter, x => (outcome, { x with exporterShutdowns := x.exporterShutdowns + 1 })
  | .dropEvents, x => ((), { x with events := x.events.disconnect })
  | .dropFlushes, x => ((), { x with flushes := x.flushes.disconnect })
  | .dropShutdowns, x => ((), { x with shutdowns := x.shutdowns.disconnect })
  | .exit, x => ((), { x with ended := some (outcome = .panicked) })
  | .dropEmitter, x => ((), { x with live := false })

end ExportInner

/-! ## Operations -/

section Operations

variable {Ev : Type}

/-- A call of the emitter that can fail with a message. -/
abbrev EmitterCall (Ev : Type) := ExceptT String (Prog (exportCalls Ev))

def request (c : ExportCall Ev) : Prog (exportCalls Ev) c.Ans :=
  Prog.request (I := exportCalls Ev) c

def ask (c : ExportCall Ev) : EmitterCall Ev c.Ans :=
  ExceptT.lift (request c)

/-- The counters, one load after the other. -/
def stats : Prog (exportCalls Ev) AsyncExportStats := do
  let accepted ← request (.load .accepted)
  let dropped ← request (.load .dropped)
  let exported ← request (.load .exported)
  let exportFailed ← request (.load .exportFailed)
  let rejectedAfterShutdown ← request (.load .rejectedAfterShutdown)
  let enqueueNanosTotal ← request (.load .enqueueNanosTotal)
  let enqueueNanosMax ← request (.load .enqueueNanosMax)
  pure ⟨accepted, dropped, exported, exportFailed, rejectedAfterShutdown, enqueueNanosTotal,
    enqueueNanosMax⟩

/-- Enqueue an event; `elapsed` is the measured time of the call. -/
def enqueue (event : Ev) (elapsed : Nat) : Prog (exportCalls Ev) Unit := do
  request .enterEnqueue
  let state ← request .loadState
  if state ≠ .exportOpen then
    request (.fetchAdd .rejectedAfterShutdown 1)
    request (.fetchAdd .dropped 1)
  else
    match ← request (.trySendEvent event) with
    | .ok _ => request (.fetchAdd .accepted 1)
    | .error _ => request (.fetchAdd .dropped 1)
  request .leaveEnqueue
  request (.fetchAdd .enqueueNanosTotal elapsed)
  request (.fetchMax .enqueueNanosMax elapsed)

/-- Wait until no enqueue is in flight, for a number of polls. -/
def awaitIdle (timedOut : String) : Nat → EmitterCall Ev Unit
  | 0 => do
      if (← ask .loadInFlight) ≠ 0 then throw timedOut
  | polls + 1 => do
      if (← ask .loadInFlight) ≠ 0 then awaitIdle timedOut polls

def flush (polls : Nat) : EmitterCall Ev AsyncExportStats := do
  let state ← ask .loadState
  if state ≠ .exportOpen then throw "telemetry exporter is shutting down"
  else
    awaitIdle "telemetry flush timed out" polls
    let target ← ask (.load .accepted)
    match ← ask (.trySendFlush target) with
    | .error .full => throw "telemetry control queue is full"
    | .error .disconnected => throw "export worker stopped"
    | .ok receiver =>
        match ← ask (.recvResponse receiver) with
        | some snapshot => pure snapshot
        | none => throw "telemetry flush timed out"

/-- Wait until the exporter has been shut down. -/
def awaitClosed : Nat → EmitterCall Ev Unit
  | 0 => do
      if (← ask .loadState) ≠ .exportClosed then throw "telemetry shutdown timed out"
  | polls + 1 => do
      if (← ask .loadState) ≠ .exportClosed then awaitClosed polls

/-- Wait until the worker thread has ended, and join it. -/
def awaitWorker (polls : Nat) : EmitterCall Ev Unit := do
  match ← ask .joinWorker with
  | .taken => pure ()
  | .joined panicked => if panicked then throw "telemetry worker panicked"
  | .running =>
      match polls with
      | 0 => throw "telemetry thread shutdown timed out"
      | polls + 1 => awaitWorker polls

/-- The polls that the timeout of a shutdown leaves room for, in each of its three waits. -/
structure Patience where
  idle : Nat
  closed : Nat
  worker : Nat

/-- Hand the shutdown over to the worker. -/
def sendShutdown : EmitterCall Ev Unit := do
  let target ← ask (.load .accepted)
  match ← ask (.trySendShutdown target) with
  | .ok _ => pure ()
  | .error _ =>
      ask (.setShutdownError (some "export worker stopped"))
      ask .storeClosed

def shutdown (patience : Patience) : EmitterCall Ev AsyncExportStats := do
  ask .closeState
  awaitIdle "telemetry shutdown timed out" patience.idle
  let admitted ← ask .admitShutdown
  if admitted then sendShutdown
  awaitClosed patience.closed
  awaitWorker patience.worker
  match ← ask .readShutdownError with
  | some error => throw error
  | none => ExceptT.lift stats

/-! ## The worker -/

def panickedInShutdown : String := "telemetry exporter panicked during shutdown"

/-- Shut the exporter down, and drop what the worker holds. -/
def finishExporter : Prog (exportCalls Ev) Unit := do
  let error := match ← request .shutdownExporter with
    | .ok => none
    | .failed message => some message
    | .panicked => some panickedInShutdown
  request (.setShutdownError error)
  request .storeClosed
  request .dropEvents
  request .dropFlushes
  request .dropShutdowns
  request .exit

/-- Take queued events, up to the given number. -/
def fillBatch : Nat → List Ev → Prog (exportCalls Ev) (List Ev)
  | 0, batch => pure batch
  | room + 1, batch => do
      match ← request .tryRecvEvent with
      | some event => fillBatch room (batch ++ [event])
      | none => pure batch

/-- Export a batch; answers how many events were processed. -/
def exportBatch (batch : List Ev) : Prog (exportCalls Ev) Nat := do
  if batch.isEmpty then pure 0
  else
    let outcome ← request (.exportEvents batch)
    request (.fetchAdd (if outcome = .ok then .exported else .exportFailed) batch.length)
    pure batch.length

/-- The local variables of the worker's loop. -/
structure WorkerLocals where
  processed : Nat := 0
  pendingFlush : Option FlushCommand := none
  pendingShutdown : Option Nat := none

/-- Look for commands that are not pending yet. -/
def pollCommands (l : WorkerLocals) : Prog (exportCalls Ev) WorkerLocals := do
  let pendingShutdown ← match l.pendingShutdown with
    | some target => pure (some target)
    | none => request .tryRecvShutdown
  let pendingFlush ← if l.pendingFlush.isNone && pendingShutdown.isNone then
    request .tryRecvFlush else pure l.pendingFlush
  pure { l with pendingFlush := pendingFlush, pendingShutdown := pendingShutdown }

/-- Answer the pending flush if its target is reached. -/
def respondFlush (l : WorkerLocals) (snapshot : AsyncExportStats) :
    Prog (exportCalls Ev) WorkerLocals := do
  match l.pendingFlush with
  | some command =>
      if command.target ≤ l.processed then
        request (.respond command.response snapshot)
        pure { l with pendingFlush := none }
      else pure l
  | none => pure l

/-- One round after the commands were polled; `none` when every emitter is gone. -/
def exportRound (config : AsyncExportConfig) (l : WorkerLocals) :
    Prog (exportCalls Ev) (Option WorkerLocals) := do
  match ← request .recvEvent with
  | .error .disconnected => pure none
  | received => do
      let first := match received with
        | .ok event => [event]
        | .error _ => []
      let batch ← fillBatch (config.maxBatchSize - first.length) first
      let count ← exportBatch batch
      let snapshot ← stats
      let l ← respondFlush { l with processed := l.processed + count } snapshot
      pure (some l)

/-- The export worker, for as many rounds as it is scheduled for. -/
def runExportWorker (config : AsyncExportConfig) : Nat → WorkerLocals → Prog (exportCalls Ev) Unit
  | 0, _ => pure ()
  | rounds + 1, l => do
      let l ← pollCommands l
      match ← exportRound config l with
      | none => finishExporter
      | some l =>
          if l.pendingShutdown.any (· ≤ l.processed) then finishExporter
          else runExportWorker config rounds l

end Operations

/-! ## The machine -/

inductive EmitterTask (Ev : Type) where
  | enqueue (event : Ev) (elapsed : Nat)
  | flush (polls : Nat)
  | shutdown (patience : Patience)
  | stats
  | worker (rounds : Nat)
  | dropEmitter

variable {Ev : Type}

def exportMachine (Ev : Type) (config : AsyncExportConfig) :
    Machine (exportCalls Ev) (ExportInner Ev) ExporterOutcome (EmitterTask Ev) where
  exec := ExportInner.exec config
  program
    | .enqueue event elapsed => enqueue event elapsed
    | .flush polls => (flush polls).run.toUnit
    | .shutdown patience => (shutdown patience).run.toUnit
    | .stats => stats.toUnit
    | .worker rounds => runExportWorker config rounds {}
    | .dropEmitter => request .dropEmitter

def EmitterTask.isWorker : EmitterTask Ev → Bool
  | .worker _ => true
  | _ => false

/-- The worker is spawned once.  The other operations borrow an emitter: they run while one
exists, and the last one is dropped when they have returned. -/
def emitterGuard (Ev : Type) : Guard (exportCalls Ev) (ExportInner Ev) (EmitterTask Ev) where
  start s task :=
    if task.isWorker then ∀ t ∈ s.threads, t.task.isWorker = false else s.shared.live = true
  call s i c := ∀ t ∈ s.threads[i]?, t.task.isWorker = false → s.shared.live = true ∧
    (c matches .dropEmitter → ∀ other ∈ s.threads.eraseIdx i,
      other.task.isWorker = false → other.next?.isNone = true)

instance (s : System (exportCalls Ev) (ExportInner Ev) (EmitterTask Ev)) (task : EmitterTask Ev) :
    Decidable ((emitterGuard Ev).start s task) :=
  inferInstanceAs (Decidable (if task.isWorker = true then _ else _))

instance (s : System (exportCalls Ev) (ExportInner Ev) (EmitterTask Ev)) (i : Nat)
    (c : ExportCall Ev) : Decidable ((emitterGuard Ev).call s i c) :=
  inferInstanceAs (Decidable (∀ t ∈ s.threads[i]?, _))

/-- A new emitter. -/
def newEmitter (Ev : Type) : System (exportCalls Ev) (ExportInner Ev) (EmitterTask Ev) :=
  ⟨{}, []⟩

end Rustvello.Telemetry
