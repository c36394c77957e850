import Rustvello.Concurrency.History
import Rustvello.Core.Error
import Rustvello.Proto.Trigger

/-!
# Worker processes

`SubprocessExecutor` (`runner/executor/subprocess.rs`) keeps a pool of worker processes and
talks to them in lines: an execution writes its request to the worker it has checked out and
takes the next line of the worker's output for the answer.  No line says which request it
answers.

* `execute`, `start` — the operations of the executor, call by call; a future may be dropped
  at any call, and then its worker is killed;
* `poolMachine` — any number of them, and worker processes that take requests, write lines
  of any content and exit, each at any time;
* `answered` — the book of an execution: the number of its request among the lines of its
  worker's input, and the response line it has read;
* `Attributed` — every worker has one owner, an operation or the idle list;
* `orderlyWorkers` — the runs in which a worker writes one response for each request it has
  taken;
* `results_attributed` — in these runs every line read for a response was written after the
  request was taken, and idle workers have answered each request with one response;
* `stray_line_returned` — a line too many becomes the result of the next invocation;
* `progress_line_kept` — a worker that wrote something else goes back to the pool.
-/

namespace Rustvello
namespace Proto
namespace JsonValue

/-- `Value::get` with a key. -/
def get? (key : String) : JsonValue → Option JsonValue
  | object members => (members.find? fun member => member.1 = key).map Prod.snd
  | _ => none

def asBool? : JsonValue → Option Bool
  | bool value => some value
  | _ => none

def asStr? : JsonValue → Option String
  | string value => some value
  | _ => none

end JsonValue
end Proto

namespace Runner

open Concurrency Proto Rustvello.Core

/-! ## Worker processes and the pool -/

/-- A line of a worker's output, with the number of requests that the worker had taken when
it wrote the line. -/
structure OutputLine where
  text : String
  taken : Nat
deriving DecidableEq, Repr

/-- A worker process.  `inputs` are the complete lines written to it, of which it has taken
the first `taken`; `wrote` are the lines of its output, of which the executor has read the
first `reads`. -/
structure WorkerProcess where
  alive : Bool := true
  typed : String := ""
  inputs : List String := []
  taken : Nat := 0
  wrote : List OutputLine := []
  reads : Nat := 0
deriving DecidableEq, Repr

/-- No line but the first one, the ready line, is among the first `count` and such. -/
def WorkerProcess.NoneOf (such : String → Bool) (p : WorkerProcess) (count : Nat) : Prop :=
  ∀ i line, 0 < i → i < count → p.wrote[i]? = some line → such line.text = false

/-- The next line to be read. -/
def WorkerProcess.nextLine (p : WorkerProcess) : Option OutputLine :=
  p.wrote[p.reads]?

/-- The processes started so far, those in the idle list (last pushed first), and the
permits left. -/
structure PoolState where
  processes : Nat → WorkerProcess := fun _ => {}
  started : Nat := 0
  idle : List Nat := []
  permits : Nat := 1

/-- The calls of the executor, each an await point, and the moves of the workers. -/
inductive PoolCall where
  | acquirePermit
  | releasePermit
  | popIdle
  | pushIdle (worker : Nat)
  | spawn
  | writeAll (worker : Nat) (text : String)
  | writeNewline (worker : Nat)
  | flush (worker : Nat)
  | readLine (worker : Nat)
  | kill (worker : Nat)
  | takeRequest (worker : Nat)
  | emit (worker : Nat) (text : String)
  | exit (worker : Nat)
deriving DecidableEq, Repr

/-- Why a call has no answer: the future was dropped at it, or it failed. -/
inductive Interruption where
  | dropped
  | failed (message : String)
deriving DecidableEq, Repr

/-- `writeNewline` answers the number of the line in the worker's input, which the code does
not look at; `readLine` answers nothing at the end of the output. -/
abbrev PoolCall.Ans : PoolCall → Type
  | .popIdle => Option Nat
  | .spawn => Nat
  | .writeNewline _ => Nat
  | .readLine _ => Option OutputLine
  | _ => Unit

abbrev poolCalls : Interface := ⟨PoolCall, fun c => Except Interruption c.Ans⟩

/-- What the surroundings do at a call: its future is dropped, or the operating system reports
a failure. -/
structure PoolEnv where
  dropped : Bool := false
  failure : Option String := none

namespace PoolCall

/-- The worker that is dropped with a future which waits at the call. -/
def held? : PoolCall → Option Nat
  | pushIdle worker | writeAll worker _ | writeNewline worker | flush worker | readLine worker
  | kill worker => some worker
  | _ => none

/-- The call is an await point of the executor. -/
def awaits : PoolCall → Bool
  | acquirePermit | popIdle | pushIdle _ | writeAll _ _ | writeNewline _ | flush _ | readLine _
  | kill _ => true
  | _ => false

/-- The operating system may report a failure. -/
def fallible : PoolCall → Bool
  | spawn | writeAll _ _ | writeNewline _ | flush _ | readLine _ => true
  | _ => false

end PoolCall

namespace PoolState

def update (s : PoolState) (worker : Nat) (f : WorkerProcess → WorkerProcess) : PoolState :=
  { s with processes := Function.update s.processes worker (f (s.processes worker)) }

/-- The process ends; what it has written can still be read. -/
def ended (s : PoolState) (worker : Nat) : PoolState :=
  s.update worker fun p => { p with alive := false }

/-- A dropped future kills its worker (`kill_on_drop`). -/
def drop (s : PoolState) (c : PoolCall) : PoolState :=
  match c.held? with
  | some worker => s.ended worker
  | none => s

/-- The call has to wait: for a permit, or for a line of a running process. -/
def blocked (s : PoolState) : PoolCall → Bool
  | .acquirePermit => s.permits = 0
  | .readLine worker => (s.processes worker).nextLine.isNone && (s.processes worker).alive
  | _ => false

def carryOut : (c : PoolCall) → PoolState → c.Ans × PoolState
  | .acquirePermit, s => ((), { s with permits := s.permits - 1 })
  | .releasePermit, s => ((), { s with permits := s.permits + 1 })
  | .popIdle, s => (s.idle.head?, { s with idle := s.idle.tail })
  | .pushIdle worker, s => ((), { s with idle := worker :: s.idle })
  | .spawn, s => (s.started, { s with
      started := s.started + 1
      processes := Function.update s.processes s.started {} })
  | .writeAll worker text, s => ((), s.update worker fun p => { p with typed := p.typed ++ text })
  | .writeNewline worker, s => ((s.processes worker).inputs.length + 1,
      s.update worker fun p => { p with typed := "", inputs := p.inputs ++ [p.typed] })
  | .flush _, s => ((), s)
  | .readLine worker, s => ((s.processes worker).nextLine, s.update worker fun p =>
      if p.nextLine.isSome then { p with reads := p.reads + 1 } else p)
  | .kill worker, s => ((), s.ended worker)
  | .takeRequest worker, s => ((), s.update worker fun p =>
      if p.taken < p.inputs.length then { p with taken := p.taken + 1 } else p)
  | .emit worker text, s => ((), s.update worker fun p =>
      if p.alive then { p with wrote := p.wrote ++ [⟨text, p.taken⟩] } else p)
  | .exit worker, s => ((), s.ended worker)

/-- One call.  A future that has to wait moves on only by being dropped; a failed write or
read has no effect. -/
def exec (env : PoolEnv) (c : PoolCall) (s : PoolState) :
    Except Interruption c.Ans × PoolState :=
  if c.awaits && (env.dropped || s.blocked c) then (.error .dropped, s.drop c)
  else
    match env.failure.filter fun _ => c.fallible with
    | some message => (.error (.failed message), s)
    | none => (.ok (carryOut c s).1, (carryOut c s).2)

@[simp] theorem update_self (s : PoolState) (worker : Nat) (f : WorkerProcess → WorkerProcess) :
    (s.update worker f).processes worker = f (s.processes worker) := by
  simp [update]

theorem update_ne (s : PoolState) {worker other : Nat} (f : WorkerProcess → WorkerProcess)
    (h : other ≠ worker) : (s.update worker f).processes other = s.processes other := by
  simp [update, h]

/-- What can come of a call. -/
theorem exec_cases (env : PoolEnv) (c : PoolCall) (s : PoolState) :
    exec env c s = (.error .dropped, s.drop c) ∨
      (∃ message, exec env c s = (.error (.failed message), s)) ∨
      exec env c s = (.ok (carryOut c s).1, (carryOut c s).2) := by
  unfold exec
  split
  · exact .inl rfl
  · split
    · exact .inr (.inl ⟨_, rfl⟩)
    · exact .inr (.inr rfl)

end PoolState

/-! ## The executor -/

/-- How worker processes are launched. -/
structure SubprocessSpec where
  command : List String
  expectedTasks : List String := []

/-- `serde_json::from_str` of a trimmed line, with the text of its error, and `{:?}`. -/
structure LineCodec where
  parse : String → Except String JsonValue
  debug : String → String

/-- An operation ends early with its error, or when its future is dropped. -/
inductive Stop where
  | dropped
  | error (e : RustvelloError)
deriving DecidableEq

abbrev Exec := ExceptT Stop (Prog poolCalls)

def call (c : PoolCall) (onFailure : String → RustvelloError) : Exec c.Ans :=
  ExceptT.mk do
    match ← Prog.request (I := poolCalls) c with
    | .ok a => pure (.ok a)
    | .error .dropped => pure (.error .dropped)
    | .error (.failed message) => pure (.error (.error (onFailure message)))

/-- A call that does not fail. -/
abbrev callOk (c : PoolCall) : Exec c.Ans :=
  call c .internal

def attempt {α : Type} (p : Exec α) : Exec (RustvelloResult α) :=
  ExceptT.mk do
    match ← p.run with
    | .ok a => pure (.ok (.ok a))
    | .error (.error e) => pure (.ok (.error e))
    | .error .dropped => pure (.error .dropped)

def ofResult {α : Type} : RustvelloResult α → Exec α
  | .ok a => pure a
  | .error e => throw (.error e)

def crashType : String := "WorkerProcessCrashed"

def workerCrash (message : String) : RustvelloError :=
  .taskExecution crashType message none

section Lines

variable (codec : LineCodec)

/-- Tasks of `expected` that a ready line does not list. -/
def missingTasks (expected : List String) (announcement : JsonValue) : Option (List String) :=
  match announcement.get? "tasks" with
  | some (.array items) =>
      let announced := items.filterMap JsonValue.asStr?
      let missing := expected.filter fun task => task ∉ announced
      if missing.isEmpty then none else some missing
  | _ => none

/-- The result or the task error that a response line has. -/
def response (line : String) : RustvelloResult String :=
  match codec.parse line with
  | .error error => .error (workerCrash
      ("worker returned invalid JSON (" ++ error ++ "): " ++ codec.debug line))
  | .ok value =>
      if (value.get? "ok").bind JsonValue.asBool? = some true then
        .ok (((value.get? "result").bind JsonValue.asStr?).getD "null")
      else
        let field := fun key => (value.get? key).bind JsonValue.asStr?
        .error (.taskExecution ((field "error_type").getD "TaskExecutionError")
          ((field "message").getD "") (field "traceback"))

/-- The failure of a worker, as opposed to that of a task. -/
def isCrash : RustvelloError → Bool
  | .taskExecution errorType _ _ => errorType = crashType
  | _ => false

/-- The response is the last one that is read from the worker. -/
def Breaks (line : String) : Bool :=
  match response codec line with
  | .error e => isCrash e
  | .ok _ => false

/-- The line is a response of the protocol: a result, or type and message of an error. -/
def isResponse (line : String) : Bool :=
  match codec.parse line with
  | .error _ => false
  | .ok value =>
      let has := fun key => ((value.get? key).bind JsonValue.asStr?).isSome
      match (value.get? "ok").bind JsonValue.asBool? with
      | some true => has "result"
      | some false => has "error_type" && has "message"
      | none => false

/-- While the worker waited for the next request, or was at this one, it wrote one line, and
that a response. -/
def AnsweredOnce (p : WorkerProcess) (number : Nat) : Prop :=
  ∃ (i : Nat) (line : OutputLine), p.wrote[i]? = some line ∧ line.taken = number ∧
    isResponse codec line.text = true ∧
      ∀ (j : Nat) (other : OutputLine), p.wrote[j]? = some other → other.taken = number → j = i

/-- The rule for workers: after the ready line they write a line only if they have taken a
request for it, and then a response or a line that ends their service; what follows such a
line is never read. -/
def MayEmit (p : WorkerProcess) (text : String) : Prop :=
  p.wrote.length ≤ p.taken ∧
      (p.wrote = [] ∨ isResponse codec text = true ∨ Breaks codec text = true) ∨
    ∃ line ∈ p.wrote.tail, Breaks codec line.text = true

instance (p : WorkerProcess) (text : String) : Decidable (MayEmit codec p text) :=
  inferInstanceAs (Decidable (_ ∧ (_ ∨ _ ∨ _) ∨ ∃ line ∈ p.wrote.tail, _))

end Lines

section Operations

variable (codec : LineCodec) (spec : SubprocessSpec)

def missingTasksError (program : String) (announcement : JsonValue) (missing : List String) :
    RustvelloError :=
  let app := ((announcement.get? "app").bind JsonValue.asStr?).getD "<unknown>"
  let registered := match announcement.get? "tasks" with
    | some (.array items) => items.length
    | _ => 0
  .configuration ("worker process " ++ codec.debug program ++ " (app " ++ codec.debug app ++
    ") registered " ++ toString registered ++ " task(s) but this runner knows " ++
    toString spec.expectedTasks.length ++ "; missing: " ++ ", ".intercalate missing ++
    ". A worker process imports only its import_path, so that module must import every " ++
    "module that registers tasks")

/-- Start a worker process and read its ready line. -/
def spawnWorker : Exec Nat := do
  match spec.command with
  | [] => throw (.error (.configuration "subprocess executor needs a worker command"))
  | program :: _ =>
      let worker ← call .spawn fun error => .configuration
        ("cannot start worker process " ++ codec.debug program ++ ": " ++ error)
      let read ← attempt (call (.readLine worker) .internal)
      let ready := match read with
        | .ok (some line) => line.text
        | _ => ""
      let announcement := match read with
        | .ok (some line) => (codec.parse line.text).toOption
        | _ => none
      if ((announcement.bind (JsonValue.get? "ready")).bind JsonValue.asBool?).getD false = false then
        callOk (.kill worker)
        throw (.error (.configuration ("worker process " ++ codec.debug program ++
          " did not announce readiness (got " ++ codec.debug ready ++ ")")))
      else
        match missingTasks spec.expectedTasks (announcement.getD .null) with
        | none => pure worker
        | some missing =>
            callOk (.kill worker)
            throw (.error (missingTasksError codec spec program (announcement.getD .null) missing))

def checkout : Exec Nat := do
  match ← callOk .popIdle with
  | some worker => pure worker
  | none => spawnWorker codec spec

/-- Write a request and read the next line for its response. -/
def roundTrip (worker : Nat) (request : String) : Exec String := do
  call (.writeAll worker request) fun error => workerCrash ("cannot write to worker: " ++ error)
  let _ ← call (.writeNewline worker) fun error =>
    workerCrash ("cannot write to worker: " ++ error)
  call (.flush worker) fun error => workerCrash ("cannot flush worker stdin: " ++ error)
  match ← call (.readLine worker) fun error =>
      workerCrash ("cannot read from worker: " ++ error) with
  | none => throw (.error (workerCrash "worker process exited while executing the task"))
  | some line => ofResult (response codec line.text)

/-- What is done with a worker that has been checked out. -/
def serve (worker : Nat) (request : String) : Exec String := do
  let outcome ← attempt (roundTrip codec worker request)
  match outcome with
  | .ok result =>
      callOk (.pushIdle worker)
      pure result
  | .error e =>
      -- protocol or process failures leave the worker unusable
      if isCrash e then callOk (.kill worker) else callOk (.pushIdle worker)
      throw (.error e)

/-- Run one task; `request` is its request line.  The permit is given back however the rest
ends. -/
def execute (request : String) : Exec String := do
  callOk .acquirePermit
  let outcome ← ExceptT.lift (ExceptT.run do
    let worker ← checkout codec spec
    serve codec worker request)
  callOk .releasePermit
  ExceptT.mk (pure outcome)

/-- Spawn the first worker. -/
def start : Exec Unit := do
  let worker ← spawnWorker codec spec
  callOk (.pushIdle worker)

end Operations

/-! ## The machine -/

inductive PoolTask where
  | execute (request : String)
  | start
  | takeRequest (worker : Nat)
  | emit (worker : Nat) (text : String)
  | exit (worker : Nat)
deriving DecidableEq

/-- The executor, and its workers. -/
def poolMachine (codec : LineCodec) (spec : SubprocessSpec) :
    Machine poolCalls PoolState PoolEnv PoolTask where
  exec := PoolState.exec
  program
    | .execute request => (execute codec spec request).run.toUnit
    | .start => (start codec spec).run.toUnit
    | .takeRequest worker => (Prog.request (I := poolCalls) (.takeRequest worker)).toUnit
    | .emit worker text => (Prog.request (I := poolCalls) (.emit worker text)).toUnit
    | .exit worker => (Prog.request (I := poolCalls) (.exit worker)).toUnit

/-- An executor of the given size, without workers. -/
def freshPool (size : Nat) : System poolCalls PoolState PoolTask :=
  ⟨{ permits := max size 1 }, []⟩

/-- Workers keep to the rule. -/
def orderlyWorkers (codec : LineCodec) : Guard poolCalls PoolState PoolTask where
  start _ _ := True
  call s _
    | .emit worker text => (s.shared.processes worker).alive = true →
        MayEmit codec (s.shared.processes worker) text
    | _ => True

/-! ## What an execution holds -/

/-- What may be done with a worker that is held: its next line is still to be read, it can be
given a request or go back to the pool, or it can only be killed. -/
inductive Stage where
  | opened
  | clean
  | doomed
deriving DecidableEq

/-- The book of an operation of the executor. -/
structure Exchange where
  holding : Option (Nat × Stage) := none
  /-- The text written to the worker. -/
  typed : Option (Nat × String) := none
  /-- The number of its request among the lines of the worker's input. -/
  number : Option (Nat × Nat) := none
  /-- The response line. -/
  line : Option (Nat × OutputLine) := none
deriving DecidableEq

namespace Exchange

/-- The book of an operation that has just begun. -/
def empty : Exchange := {}

def doom (g : Exchange) : Exchange :=
  { g with holding := g.holding.map fun held => (held.1, .doomed) }

/-- Reading a line: the ready line, or the response to the request. -/
def read (codec : LineCodec) (worker : Nat) (line : OutputLine) (g : Exchange) : Exchange :=
  match g.number with
  | none => { g with holding := some (worker, .clean) }
  | some _ =>
      { g with
        holding := some (worker, if Breaks codec line.text then .doomed else .clean)
        line := some (worker, line) }

def Holds (g : Exchange) (worker : Nat) : Prop :=
  ∃ stage, g.holding = some (worker, stage)

end Exchange

/-- An execution gives its request to the worker it has checked out, and takes one line for
the response; a worker goes back only in between. -/
def answered (codec : LineCodec) : Discipline poolCalls PoolTask Exchange where
  start _ := {}
  next
    | .popIdle, .ok (some worker), g => { g with holding := some (worker, .clean) }
    | .spawn, .ok worker, g => { g with holding := some (worker, .opened) }
    | .writeAll worker text, .ok _, g => { g with typed := some (worker, text) }
    | .writeNewline worker, .ok number, g =>
        { g with holding := some (worker, .opened), number := some (worker, number) }
    | .readLine worker, .ok (some line), g => g.read codec worker line
    | .pushIdle _, _, g => { g with holding := none }
    | .kill _, _, g => { g with holding := none }
    | .readLine _, _, g => g.doom
    | .writeAll _ _, .error _, g => g.doom
    | .writeNewline _, .error _, g => g.doom
    | .flush _, .error _, g => g.doom
    | _, _, g => g
  pre
    | .popIdle, g => g.holding = none
    | .spawn, g => g.holding = none ∧ g.number = none
    | .writeAll worker _, g => g.Holds worker
    | .flush worker, g => g.Holds worker
    | .kill worker, g => g.Holds worker
    | .writeNewline worker, g => g.holding = some (worker, .clean) ∧ g.line = none
    | .pushIdle worker, g => g.holding = some (worker, .clean)
    | .readLine worker, g => g.holding = some (worker, .opened)
    | _, _ => True
  resp _ _ _ := True

section Rules

variable {α β Ω γ : Type} {D : Discipline poolCalls Ω γ} {Q : β → γ → Prop} {E : Stop → γ → Prop}
  {g : γ} {onFailure : String → RustvelloError}

theorem obeysE_call {c : PoolCall} {Q : c.Ans → γ → Prop} :
    D.ObeysE (call c onFailure) Q E g ↔ D.pre c g ∧
      (∀ a, D.resp c g (.ok a) → Q a (D.next c (.ok a) g)) ∧
      (D.resp c g (.error .dropped) → E .dropped (D.next c (.error .dropped) g)) ∧
      ∀ message, D.resp c g (.error (.failed message)) →
        E (.error (onFailure message)) (D.next c (.error (.failed message)) g) := by
  rw [call, Discipline.obeysE_mk, Discipline.obeys_bind, Discipline.obeys_request]
  refine and_congr_right fun _ => ⟨fun h => ⟨fun a => h (.ok a), h (.error .dropped),
    fun message => h (.error (.failed message))⟩, ?_⟩
  rintro ⟨hok, hdropped, hfailed⟩ (interruption | a) hr
  · cases interruption with
    | dropped => exact hdropped hr
    | failed message => exact hfailed message hr
  · exact hok a hr

theorem obeysE_call_bind {c : PoolCall} {f : c.Ans → Exec β} :
    D.ObeysE (call c onFailure >>= f) Q E g ↔ D.pre c g ∧
      (∀ a, D.resp c g (.ok a) → D.ObeysE (f a) Q E (D.next c (.ok a) g)) ∧
      (D.resp c g (.error .dropped) → E .dropped (D.next c (.error .dropped) g)) ∧
      ∀ message, D.resp c g (.error (.failed message)) →
        E (.error (onFailure message)) (D.next c (.error (.failed message)) g) := by
  rw [Discipline.obeysE_bind, obeysE_call]

theorem obeysE_attempt {p : Exec α} {Q : RustvelloResult α → γ → Prop} :
    D.ObeysE (attempt p) Q E g ↔ D.ObeysE p (fun a => Q (.ok a)) (fun
      | .error e => Q (.error e)
      | .dropped => E .dropped) g := by
  rw [attempt, Discipline.obeysE_mk, Discipline.obeys_bind]
  have hcond : (fun (r : Except Stop α) (g' : γ) => D.Obeys (match r with
        | .ok a => pure (.ok (.ok a))
        | .error (.error e) => pure (.ok (.error e))
        | .error .dropped => pure (.error .dropped)) (Discipline.Outcome Q E) g') =
      Discipline.Outcome (fun a => Q (.ok a)) (fun
        | .error e => Q (.error e)
        | .dropped => E .dropped) := by
    funext r g'
    rcases r with (_ | _) | _ <;> rfl
  rw [hcond]
  rfl

end Rules

section Executions

variable {codec : LineCodec} {spec : SubprocessSpec} {worker : Nat} {request : String}

/-- The request was given to a worker, and the outcome is in the line that was read from it. -/
def Answered (codec : LineCodec) (request : String) (g : Exchange)
    (outcome : RustvelloResult String) : Prop :=
  ∃ worker number line, g.typed = some (worker, request) ∧ g.number = some (worker, number) ∧
    g.line = some (worker, line) ∧ response codec line.text = outcome

/-- What an outcome says about the book: a result or a task error is that of the response line,
unless a worker failed before there was one. -/
def Explained (codec : LineCodec) (request : String) : Except Stop String → Exchange → Prop
  | .ok result, g => Answered codec request g (.ok result)
  | .error (.error e), g => isCrash e = true ∧ g.line = none ∨ (∀ errorType message traceback,
      e ≠ .taskExecution errorType message traceback) ∨ Answered codec request g (.error e)
  | .error .dropped, _ => True

/-- A round trip ends with the response line read, and the worker fit for another request; or
with a crash, and the worker still held. -/
theorem roundTrip_obeys :
    (answered codec).ObeysE (roundTrip codec worker request)
      (fun result g => g.holding = some (worker, .clean) ∧ Explained codec request (.ok result) g)
      (fun
        | .error e, g =>
            (if isCrash e then g.Holds worker else g.holding = some (worker, .clean)) ∧
              Explained codec request (.error (.error e)) g
        | .dropped, _ => True)
      { holding := some (worker, .clean) } := by
  -- a failure before there is a line
  have hcrash : ∀ message (g : Exchange), g.Holds worker → g.line = none →
      (if isCrash (workerCrash message) then g.Holds worker
        else g.holding = some (worker, .clean)) ∧
      Explained codec request (.error (.error (workerCrash message))) g :=
    fun _ _ hholds hline => ⟨hholds, .inl ⟨rfl, hline⟩⟩
  unfold roundTrip
  refine obeysE_call_bind.mpr ⟨⟨_, rfl⟩, fun _ _ => ?_, fun _ => trivial,
    fun message _ => hcrash _ _ ⟨_, rfl⟩ rfl⟩
  refine obeysE_call_bind.mpr ⟨⟨rfl, rfl⟩, fun number _ => ?_, fun _ => trivial,
    fun message _ => hcrash _ _ ⟨_, rfl⟩ rfl⟩
  refine obeysE_call_bind.mpr ⟨⟨_, rfl⟩, fun _ _ => ?_, fun _ => trivial,
    fun message _ => hcrash _ _ ⟨_, rfl⟩ rfl⟩
  refine obeysE_call_bind.mpr ⟨rfl, fun found _ => ?_, fun _ => trivial,
    fun message _ => hcrash _ _ ⟨_, rfl⟩ rfl⟩
  cases found with
  | none => exact hcrash _ _ ⟨_, rfl⟩ rfl
  | some line =>
      dsimp only [ofResult]
      cases hresponse : response codec line.text with
      | ok result =>
          have hkept : Breaks codec line.text = false := by simp [Breaks, hresponse]
          refine Discipline.obeysE_pure.mpr ⟨?_, worker, number, line, rfl, rfl, rfl, hresponse⟩
          simp [answered, Exchange.read, hkept]
      | error e =>
          refine Discipline.obeysE_throw.mpr ?_
          have hbreaks : Breaks codec line.text = isCrash e := by simp [Breaks, hresponse]
          refine ⟨?_, .inr (.inr ⟨worker, number, line, rfl, rfl, rfl, hresponse⟩)⟩
          split
          · exact ⟨_, rfl⟩
          · rename_i hkept
            simp [answered, Exchange.read, hbreaks, hkept]

/-- After serving a request the worker is in the pool again, or killed. -/
theorem serve_obeys :
    (answered codec).ObeysE (serve codec worker request)
      (fun result g => Explained codec request (.ok result) g)
      (fun stop g => Explained codec request (.error stop) g)
      { holding := some (worker, .clean) } := by
  unfold serve
  refine Discipline.obeysE_bind.mpr (obeysE_attempt.mpr (roundTrip_obeys.mono ?_ ?_))
  · rintro result g ⟨hholding, hanswered⟩
    exact obeysE_call_bind.mpr ⟨hholding, fun _ _ => hanswered, fun _ => trivial,
      fun _ _ => .inr (.inl fun _ _ _ h => by cases h)⟩
  · rintro (_ | e) g hg
    · trivial
    · obtain ⟨hheld, hexplained⟩ := hg
      dsimp only
      split at hheld
      · rename_i hcrash
        rw [if_pos hcrash]
        exact obeysE_call_bind.mpr ⟨hheld, fun _ _ => hexplained, fun _ => trivial,
          fun _ _ => .inr (.inl fun _ _ _ h => by cases h)⟩
      · rename_i hkept
        rw [if_neg hkept]
        exact obeysE_call_bind.mpr ⟨hheld, fun _ _ => hexplained, fun _ => trivial,
          fun _ _ => .inr (.inl fun _ _ _ h => by cases h)⟩

/-- A new worker is handed over after its ready line. -/
theorem spawnWorker_obeys :
    (answered codec).ObeysE (spawnWorker codec spec)
      (fun worker g => g = { holding := some (worker, .clean) })
      (fun stop g => Explained codec request (.error stop) g) {} := by
  have hother : ∀ message g, Explained codec request (.error (.error (.configuration message))) g :=
    fun _ _ => .inr (.inl fun _ _ _ h => by cases h)
  have hinternal : ∀ message g, Explained codec request (.error (.error (.internal message))) g :=
    fun _ _ => .inr (.inl fun _ _ _ h => by cases h)
  unfold spawnWorker
  split
  · exact hother _ _
  · refine obeysE_call_bind.mpr ⟨⟨rfl, rfl⟩, fun worker _ => ?_, fun _ => trivial,
      fun _ _ => hother _ _⟩
    -- whether or not the ready line could be read, the worker is held
    have hread : (answered codec).ObeysE (attempt (call (.readLine worker) .internal))
        (fun read g => g.Holds worker ∧ (∀ line, read = .ok (some line) →
          g = { holding := some (worker, .clean) }))
        (fun stop g => Explained codec request (.error stop) g) { holding := some (worker, .opened) } := by
      refine obeysE_attempt.mpr (obeysE_call.mpr ⟨rfl, fun found _ => ?_, fun _ => trivial,
        fun message _ => ⟨⟨_, rfl⟩, fun _ h => by cases h⟩⟩)
      cases found with
      | none => exact ⟨⟨_, rfl⟩, fun _ h => by cases h⟩
      | some line => exact ⟨⟨_, rfl⟩, fun _ _ => rfl⟩
    refine hread.bind fun read g hg => ?_
    obtain ⟨hholds, hclean⟩ := hg
    have hrefused : ∀ message, (answered codec).ObeysE (do
        callOk (.kill worker)
        throw (.error (.configuration message)))
        (fun worker g => g = { holding := some (worker, .clean) })
        (fun stop g => Explained codec request (.error stop) g) g := fun message =>
      obeysE_call_bind.mpr ⟨hholds, fun _ _ => hother message _, fun _ => trivial,
        fun _ _ => hinternal _ _⟩
    rcases read with e | _ | line
    · exact hrefused _
    · exact hrefused _
    · dsimp only
      split
      · exact hrefused _
      · split
        · exact Discipline.obeysE_pure.mpr (hclean line rfl)
        · exact hrefused _

theorem checkout_obeys :
    (answered codec).ObeysE (checkout codec spec)
      (fun worker g => g = { holding := some (worker, .clean) })
      (fun stop g => Explained codec request (.error stop) g) {} := by
  unfold checkout
  refine obeysE_call_bind.mpr ⟨rfl, fun found _ => ?_, fun _ => trivial,
    fun _ _ => .inr (.inl fun _ _ _ h => by cases h)⟩
  cases found with
  | none => exact spawnWorker_obeys
  | some worker => exact Discipline.obeysE_pure.mpr rfl

/-- **What an execution returns**: a result, or a task error, of the line it has read. -/
theorem execute_obeys :
    (answered codec).Obeys (execute codec spec request).run
      (fun r g => Explained codec request r g) {} := by
  have hinner : (answered codec).ObeysE (do
      let worker ← checkout codec spec
      serve codec worker request)
      (fun result g => Explained codec request (.ok result) g)
      (fun stop g => Explained codec request (.error stop) g) {} := by
    refine Discipline.ObeysE.bind checkout_obeys ?_
    rintro worker _ rfl
    exact serve_obeys
  have hexecute : (answered codec).ObeysE (execute codec spec request)
      (fun result g => Explained codec request (.ok result) g)
      (fun stop g => Explained codec request (.error stop) g) {} := by
    have hinternal : ∀ message g, Explained codec request (.error (.error (.internal message))) g :=
      fun _ _ => .inr (.inl fun _ _ _ h => by cases h)
    unfold execute
    refine obeysE_call_bind.mpr ⟨trivial, fun _ _ => ?_, fun _ => trivial,
      fun _ _ => hinternal _ _⟩
    refine Discipline.obeysE_bind.mpr (Discipline.obeysE_lift.mpr (Discipline.Obeys.mono hinner ?_))
    intro outcome g houtcome
    refine obeysE_call_bind.mpr ⟨trivial, fun _ _ => ?_, fun _ => trivial,
      fun _ _ => hinternal _ _⟩
    refine Discipline.obeysE_mk.mpr ?_
    cases outcome with
    | error stop => exact houtcome
    | ok result => exact houtcome
  refine Discipline.Obeys.mono hexecute ?_
  intro r g hr
  cases r with
  | error stop => exact hr
  | ok result => exact hr

theorem start_obeys :
    (answered codec).Obeys (start codec spec).run (fun _ _ => True) {} := by
  have hstart : (answered codec).ObeysE (start codec spec) (fun _ _ => True) (fun _ _ => True)
      {} := by
    unfold start
    have hspawn := @spawnWorker_obeys codec spec ""
    refine Discipline.obeysE_bind.mpr (hspawn.mono ?_ fun _ _ _ => trivial)
    rintro worker _ rfl
    exact obeysE_call.mpr ⟨rfl, fun _ _ => trivial, fun _ => trivial, fun _ _ => trivial⟩
  refine Discipline.Obeys.mono hstart ?_
  rintro (_ | _) _ _ <;> trivial

end Executions

/-! ## The pool -/

/-- Every line was written after no more requests than there were lines before it, and up to
the first one that ends the service after as many. -/
structure Timely (codec : LineCodec) (p : WorkerProcess) : Prop where
  lines : ∀ i line, p.wrote[i]? = some line → line.taken ≤ i ∧ line.taken ≤ p.taken ∧
    (p.NoneOf (Breaks codec) i → i ≤ line.taken ∧
      (i = 0 ∨ isResponse codec line.text = true ∨ Breaks codec line.text = true))
  taken : p.taken ≤ p.inputs.length
  given : p.inputs.length ≤ p.reads
  reads : p.reads ≤ p.wrote.length

/-- No line that was read as a response has ended the service. -/
structure Unbroken (codec : LineCodec) (p : WorkerProcess) : Prop where
  reads : p.reads ≤ p.wrote.length
  kept : p.NoneOf (Breaks codec) p.reads

/-- Every request has been answered by one line, after the ready line. -/
structure Clean (codec : LineCodec) (p : WorkerProcess) : Prop extends Unbroken codec p where
  answered : p.reads = p.inputs.length + 1

/-- The last request, or the start of the process, has not been answered. -/
structure Opened (codec : LineCodec) (p : WorkerProcess) (number : Option Nat) : Prop
    extends Unbroken codec p where
  open_ : p.reads = p.inputs.length
  last : p.inputs.length = number.getD 0

/-- A process does something, and is not given a request nor read from. -/
structure Moves (p p' : WorkerProcess) : Prop where
  reads : p'.reads = p.reads
  inputs : p'.inputs = p.inputs
  wrote : ∃ more, p'.wrote = p.wrote ++ more

section Processes

variable {codec : LineCodec} {p p' : WorkerProcess} {number : Option Nat}

theorem Moves.refl (p : WorkerProcess) : Moves p p :=
  ⟨rfl, rfl, [], by simp⟩

/-- What comes after them does not matter for the first lines. -/
theorem WorkerProcess.noneOf_append {such : String → Bool} {more : List OutputLine} {count : Nat}
    (hwrote : p'.wrote = p.wrote ++ more) (hcount : count ≤ p.wrote.length) :
    p'.NoneOf such count ↔ p.NoneOf such count := by
  have hsame : ∀ i, i < count → p'.wrote[i]? = p.wrote[i]? := by
    intro i hi
    rw [hwrote, List.getElem?_append_left (by omega)]
  constructor
  · intro h i line hpos hi hline
    exact h i line hpos hi ((hsame i hi).trans hline)
  · intro h i line hpos hi hline
    exact h i line hpos hi ((hsame i hi).symm.trans hline)

theorem Unbroken.moves (h : Unbroken codec p) (hmoves : Moves p p') : Unbroken codec p' := by
  obtain ⟨hreads, -, more, hwrote⟩ := hmoves
  have hlength := h.reads
  constructor
  · rw [hreads, hwrote, List.length_append]
    omega
  · rw [hreads, WorkerProcess.noneOf_append hwrote hlength]
    exact h.kept

theorem Clean.moves (h : Clean codec p) (hmoves : Moves p p') : Clean codec p' where
  toUnbroken := h.toUnbroken.moves hmoves
  answered := by rw [hmoves.reads, hmoves.inputs, h.answered]

theorem Opened.moves (h : Opened codec p number) (hmoves : Moves p p') :
    Opened codec p' number where
  toUnbroken := h.toUnbroken.moves hmoves
  open_ := by rw [hmoves.reads, hmoves.inputs, h.open_]
  last := by rw [hmoves.inputs, h.last]

theorem Timely.fresh : Timely codec {} where
  lines i line hline := by simp at hline
  taken := le_rfl
  given := le_rfl
  reads := le_rfl

/-- Lines already written were written when they were. -/
theorem Timely.of_wrote (h : Timely codec p) (hwrote : p'.wrote = p.wrote)
    (hmore : p.taken ≤ p'.taken) (htaken : p'.taken ≤ p'.inputs.length)
    (hgiven : p'.inputs.length ≤ p'.reads) (hreads : p'.reads ≤ p'.wrote.length) :
    Timely codec p' where
  lines i line hline := by
    rw [hwrote] at hline
    obtain ⟨hindex, hbefore, hkept⟩ := h.lines i line hline
    refine ⟨hindex, hbefore.trans hmore, fun hnone => hkept ?_⟩
    unfold WorkerProcess.NoneOf at hnone ⊢
    rwa [hwrote] at hnone
  taken := htaken
  given := hgiven
  reads := hreads

/-- A line more, under the rule for workers. -/
theorem Timely.emit (h : Timely codec p) {text : String} (hrule : MayEmit codec p text) :
    Timely codec { p with wrote := p.wrote ++ [⟨text, p.taken⟩] } where
  lines i line hline := by
    have htaken := h.taken
    have hgiven := h.given
    have hreads := h.reads
    by_cases hi : i < p.wrote.length
    · rw [List.getElem?_append_left hi] at hline
      obtain ⟨hindex, hbefore, hkept⟩ := h.lines i line hline
      exact ⟨hindex, hbefore, fun hnone =>
        hkept ((WorkerProcess.noneOf_append rfl hi.le).mp hnone)⟩
    · -- the new line
      rw [List.getElem?_append_right (by omega), List.getElem?_singleton] at hline
      split at hline
      · obtain rfl := Option.some.inj hline
        obtain rfl : i = p.wrote.length := by omega
        refine ⟨?_, le_rfl, fun hnone => ?_⟩
        · show p.taken ≤ p.wrote.length
          omega
        · rcases hrule with ⟨hlength, hword⟩ | ⟨earlier, hmem, hbreaks⟩
          · refine ⟨hlength, hword.imp_left fun hempty => ?_⟩
            rw [hempty]
            rfl
          · obtain ⟨j, hj⟩ := List.mem_iff_getElem?.mp hmem
            rw [List.getElem?_tail] at hj
            have hlt := (List.getElem?_eq_some_iff.mp hj).1
            have hquiet := (WorkerProcess.noneOf_append rfl le_rfl).mp hnone (j + 1) earlier
              (Nat.succ_pos j) hlt hj
            exact absurd (hquiet.symm.trans hbreaks) (by decide)
      · cases hline
  taken := h.taken
  given := h.given
  reads := by
    have hreads := h.reads
    show p.reads ≤ (p.wrote ++ [_]).length
    rw [List.length_append]
    omega

/-- **The line that is read next** was written in time. -/
theorem Unbroken.nextLine (h : Unbroken codec p) (htimely : Timely codec p) {line : OutputLine}
    (hline : p.nextLine = some line) : p.reads ≤ line.taken :=
  ((htimely.lines _ _ hline).2.2 h.kept).1

/-- Reading a line that does not end the service, or the ready line. -/
theorem Unbroken.read (h : Unbroken codec p) {line : OutputLine}
    (hline : p.nextLine = some line)
    (hkept : p.reads = 0 ∨ Breaks codec line.text = false) :
    Unbroken codec { p with reads := p.reads + 1 } := by
  obtain ⟨hlt, -⟩ := List.getElem?_eq_some_iff.mp hline
  refine ⟨hlt, fun i other hpos (hi : i < p.reads + 1) hother => ?_⟩
  by_cases hlast : i = p.reads
  · subst hlast
    obtain rfl := Option.some.inj (hline.symm.trans hother)
    exact hkept.resolve_left (by omega)
  · exact h.kept i other hpos (by omega) hother

/-- **A clean worker** has answered each of its requests with one response. -/
theorem Clean.answeredOnce (h : Clean codec p) (htimely : Timely codec p) {number : Nat}
    (hpos : 1 ≤ number) (hnumber : number ≤ p.inputs.length) : AnsweredOnce codec p number := by
  have hanswered := h.answered
  have htaken := htimely.taken
  -- every line stands at the number of its request
  have hindex : ∀ i line, p.wrote[i]? = some line → i < p.reads ∧ line.taken = i := by
    intro i line hline
    obtain ⟨hle, hbefore, hkept⟩ := htimely.lines i line hline
    by_cases hi : i ≤ p.reads
    · obtain ⟨hge, -⟩ := hkept fun j other hj hlt => h.kept j other hj (by omega)
      omega
    · -- there is no line after those that were read
      have hread := htimely.reads
      have hlt := (List.getElem?_eq_some_iff.mp hline).1
      have hnext : p.nextLine = some p.wrote[p.reads] := List.getElem?_eq_getElem (by omega)
      have hunread := h.toUnbroken.nextLine htimely hnext
      have hold := (htimely.lines _ _ hnext).2.1
      omega
  have hlt : number < p.wrote.length := by
    have hread := htimely.reads
    omega
  have hline : p.wrote[number]? = some p.wrote[number] := List.getElem?_eq_getElem hlt
  have hquiet := h.kept number _ hpos (by omega) hline
  obtain ⟨-, hword⟩ := (htimely.lines number _ hline).2.2 fun j other hj hjlt =>
    h.kept j other hj (by omega)
  refine ⟨number, _, hline, (hindex number _ hline).2, ?_, fun j other hother hsame => ?_⟩
  · rcases hword with hzero | hword | hbreaks
    · omega
    · exact hword
    · exact absurd (hquiet.symm.trans hbreaks) (by decide)
  · rw [← (hindex j other hother).2, hsame]

end Processes

/-- The worker that an operation holds. -/
def Exchange.worker? (g : Exchange) : Option Nat :=
  g.holding.map Prod.fst

/-- A held worker is in the state that its holder takes it to be in. -/
structure Fits (codec : LineCodec) (s : PoolState) (g : Exchange) : Prop where
  clean : ∀ worker, g.holding = some (worker, .clean) → Clean codec (s.processes worker)
  opened : ∀ worker, g.holding = some (worker, .opened) →
    Opened codec (s.processes worker) (g.number.map Prod.snd)

/-- The response was written after the request was taken. -/
def InTime (g : Exchange) : Prop :=
  ∀ answer ∈ g.line, ∃ asked ∈ g.number, asked.2 ≤ answer.2.taken

/-- Every worker has one owner: an operation, or the idle list, where all workers are
clean. -/
structure Attributed (codec : LineCodec) (s : PoolState) (books : List Exchange) : Prop where
  timely : ∀ worker, Timely codec (s.processes worker)
  distinct : (books.filterMap Exchange.worker? ++ s.idle).Nodup
  started : ∀ worker ∈ books.filterMap Exchange.worker? ++ s.idle, worker < s.started
  idle : ∀ worker ∈ s.idle, Clean codec (s.processes worker)
  fits : ∀ g ∈ books, Fits codec s g
  inTime : ∀ g ∈ books, InTime g

section Steps

variable {codec : LineCodec} {s s' : PoolState} {before after : List Exchange} {g g' : Exchange}
  {worker : Nat} {f : WorkerProcess → WorkerProcess}

/-- What processes do by themselves keeps a worker fit. -/
theorem Fits.moves (h : Fits codec s g)
    (hmoves : ∀ worker ∈ g.worker?, Moves (s.processes worker) (s'.processes worker)) :
    Fits codec s' g where
  clean worker hholding :=
    (h.clean worker hholding).moves (hmoves worker (by simp [Exchange.worker?, hholding]))
  opened worker hholding :=
    (h.opened worker hholding).moves (hmoves worker (by simp [Exchange.worker?, hholding]))

/-- The worker of one operation is nobody else's. -/
theorem Attributed.others (h : Attributed codec s (before ++ g :: after))
    (hown : worker ∈ g.worker?) :
    (∀ b ∈ before ++ after, worker ∉ b.worker?) ∧ worker ∉ s.idle := by
  have hdistinct := h.distinct
  have hown' : g.worker? = some worker := hown
  rw [List.filterMap_append, List.filterMap_cons_some hown', List.append_assoc, List.cons_append]
    at hdistinct
  have hout := (List.nodup_cons.mp (List.perm_middle.nodup_iff.mp hdistinct)).1
  constructor
  · intro b hb hmem
    refine hout ?_
    have hin : worker ∈ (before ++ after).filterMap Exchange.worker? :=
      List.mem_filterMap.mpr ⟨b, hb, hmem⟩
    rw [List.filterMap_append] at hin
    simp only [List.mem_append] at hin ⊢
    tauto
  · intro hmem
    refine hout ?_
    simp only [List.mem_append]
    tauto

/-- One operation has made a call.  Its worker may have changed, and others may have moved. -/
theorem Attributed.replace (h : Attributed codec s (before ++ g :: after))
    (htimely : ∀ worker, Timely codec (s'.processes worker))
    (hmoves : ∀ worker, worker ∉ g'.worker? → Moves (s.processes worker) (s'.processes worker))
    (hothers : ∀ worker ∈ g'.worker?,
      (∀ b ∈ before ++ after, worker ∉ b.worker?) ∧ worker ∉ s'.idle)
    (hdistinct : ((before ++ g' :: after).filterMap Exchange.worker? ++ s'.idle).Nodup)
    (hstarted : ∀ worker ∈ (before ++ g' :: after).filterMap Exchange.worker? ++ s'.idle,
      worker < s'.started)
    (hidle : ∀ worker ∈ s'.idle, worker ∈ s.idle ∨ Clean codec (s'.processes worker))
    (hfits : Fits codec s' g') (hinTime : InTime g') :
    Attributed codec s' (before ++ g' :: after) where
  timely := htimely
  distinct := hdistinct
  started := hstarted
  idle worker hworker := by
    rcases hidle worker hworker with hold | hclean
    · exact (h.idle worker hold).moves (hmoves worker fun hown => (hothers worker hown).2 hworker)
    · exact hclean
  fits := forall_replace_mem h.fits (fun b hb hfit => hfit.moves fun worker hown =>
    hmoves worker fun hin => (hothers worker hin).1 b hb hown) hfits
  inTime := forall_replace h.inTime (fun _ hb => hb) hinTime

/-- A call on the own worker, or on none, after which it is held as before. -/
theorem Attributed.keep (h : Attributed codec s (before ++ g :: after))
    (htimely : ∀ worker, Timely codec (s'.processes worker))
    (hmoves : ∀ worker, worker ∉ g.worker? → Moves (s.processes worker) (s'.processes worker))
    (hworker : g'.worker? = g.worker?) (hidle : s'.idle = s.idle) (hstarted : s'.started = s.started)
    (hfits : Fits codec s' g') (hinTime : InTime g') :
    Attributed codec s' (before ++ g' :: after) := by
  have hlist : (before ++ g' :: after).filterMap Exchange.worker? =
      (before ++ g :: after).filterMap Exchange.worker? := by
    simp only [List.filterMap_append, List.filterMap_cons, hworker]
  refine h.replace htimely (fun worker hout => hmoves worker (hworker ▸ hout)) ?_ ?_ ?_ ?_ hfits
    hinTime
  · intro worker hown
    rw [hidle]
    exact h.others (hworker ▸ hown)
  · rw [hlist, hidle]
    exact h.distinct
  · rw [hlist, hidle, hstarted]
    exact h.started
  · intro worker hin
    exact .inl (hidle ▸ hin)

/-- A call after which the operation holds nothing, and its worker belongs to nobody. -/
theorem Attributed.discard (h : Attributed codec s (before ++ g :: after))
    (htimely : ∀ worker, Timely codec (s'.processes worker))
    (hmoves : ∀ worker, Moves (s.processes worker) (s'.processes worker))
    (hholding : g'.holding = none) (hidle : s'.idle = s.idle) (hstarted : s'.started = s.started)
    (hline : g'.line = g.line) (hnumber : g'.number = g.number) :
    Attributed codec s' (before ++ g' :: after) := by
  have hworker : g'.worker? = none := by simp [Exchange.worker?, hholding]
  have hsublist : ((before ++ g' :: after).filterMap Exchange.worker?).Sublist
      ((before ++ g :: after).filterMap Exchange.worker?) := by
    rw [List.filterMap_append, List.filterMap_append, List.filterMap_cons_none hworker]
    exact (List.Sublist.refl _).append ((List.sublist_cons_self g after).filterMap _)
  refine h.replace htimely (fun worker _ => hmoves worker) ?_ ?_ ?_ ?_ ⟨?_, ?_⟩ ?_
  · intro worker hown
    rw [hworker] at hown
    cases hown
  · rw [hidle]
    exact h.distinct.sublist (hsublist.append (List.Sublist.refl _))
  · intro worker hin
    rw [hidle] at hin
    rw [hstarted]
    exact h.started worker ((hsublist.append (List.Sublist.refl _)).mem hin)
  · intro worker hin
    exact .inl (hidle ▸ hin)
  · intro worker hclean
    rw [hholding] at hclean
    cases hclean
  · intro worker hopened
    rw [hholding] at hopened
    cases hopened
  · intro line hin
    rw [hline] at hin
    rw [hnumber]
    exact h.inTime g (by simp) line hin

/-- A process that only moves, among processes that stay as they are. -/
theorem moves_update (hf : Moves (s.processes worker) (f (s.processes worker))) (other : Nat) :
    Moves (s.processes other) ((s.update worker f).processes other) := by
  by_cases hother : other = worker
  · subst hother
    rw [PoolState.update_self]
    exact hf
  · rw [PoolState.update_ne s f hother]
    exact Moves.refl _

theorem timely_update (h : ∀ worker, Timely codec (s.processes worker))
    (hf : Timely codec (f (s.processes worker)))
    (other : Nat) : Timely codec ((s.update worker f).processes other) := by
  by_cases hother : other = worker
  · subst hother
    rw [PoolState.update_self]
    exact hf
  · rw [PoolState.update_ne s f hother]
    exact h other

/-- A call that was dropped or has failed leaves the book as it is, or its worker to be
killed. -/
theorem next_error (c : PoolCall) (interruption : Interruption) (g : Exchange) :
    (answered codec).next c (.error interruption) g = g ∨
      (answered codec).next c (.error interruption) g = g.doom ∨
      (answered codec).next c (.error interruption) g = { g with holding := none } := by
  cases c <;> simp [answered]

theorem Attributed.interrupted (h : Attributed codec s (before ++ g :: after)) (c : PoolCall)
    (interruption : Interruption) (hmoves : ∀ worker, Moves (s.processes worker)
      (s'.processes worker)) (htimely : ∀ worker, Timely codec (s'.processes worker))
    (hidle : s'.idle = s.idle) (hstarted : s'.started = s.started) :
    Attributed codec s' (before ++ (answered codec).next c (.error interruption) g :: after) := by
  have hfits := h.fits g (by simp)
  have hinTime := h.inTime g (by simp)
  rcases next_error c interruption g with heq | heq | heq
  · rw [heq]
    exact h.keep htimely (fun worker _ => hmoves worker) rfl hidle hstarted
      (hfits.moves fun worker _ => hmoves worker) hinTime
  · rw [heq]
    refine h.keep htimely (fun worker _ => hmoves worker) ?_ hidle hstarted ⟨?_, ?_⟩ hinTime
    · simp [Exchange.worker?, Exchange.doom, Function.comp_def]
    · intro worker hclean
      simp [Exchange.doom] at hclean
    · intro worker hopened
      simp [Exchange.doom] at hopened
  · rw [heq]
    exact h.discard htimely hmoves rfl hidle hstarted rfl rfl

/-- A worker taken out of the idle list. -/
theorem Attributed.popIdle (h : Attributed codec s (before ++ g :: after)) {rest : List Nat}
    (hidle : s.idle = worker :: rest) (hfree : g.holding = none) :
    Attributed codec { s with idle := rest }
      (before ++ { g with holding := some (worker, .clean) } :: after) := by
  have hmem : worker ∈ s.idle := by simp [hidle]
  have hnone : g.worker? = none := by simp [Exchange.worker?, hfree]
  have hdistinct := h.distinct
  rw [List.filterMap_append, List.filterMap_cons_none hnone, ← List.filterMap_append, hidle]
    at hdistinct
  have hout := (List.nodup_cons.mp (List.perm_middle.nodup_iff.mp hdistinct)).1
  have hown : Exchange.worker? { g with holding := some (worker, .clean) } = some worker := rfl
  have hlist : ((before ++ { g with holding := some (worker, .clean) } :: after).filterMap
      Exchange.worker? ++ rest).Perm ((before ++ after).filterMap Exchange.worker? ++
        worker :: rest) := by
    rw [List.filterMap_append, List.filterMap_cons_some hown, List.filterMap_append,
      List.append_assoc, List.append_assoc, List.cons_append]
    refine List.Perm.append_left _ ?_
    exact (List.perm_middle).symm
  refine h.replace h.timely (fun other _ => Moves.refl _) ?_ ?_ ?_ ?_ ⟨?_, ?_⟩
    (h.inTime g (by simp))
  · intro other hother
    obtain rfl : worker = other := Option.some.inj (hown.symm.trans hother)
    constructor
    · intro b hb hbown
      refine hout (List.mem_append_left _ ?_)
      exact List.mem_filterMap.mpr ⟨b, hb, hbown⟩
    · exact fun hin => hout (List.mem_append_right _ hin)
  · exact hlist.nodup_iff.mpr hdistinct
  · intro other hother
    refine h.started other ?_
    have hin := hlist.mem_iff.mp hother
    rw [List.filterMap_append, List.filterMap_cons_none hnone, ← List.filterMap_append, hidle]
    exact hin
  · intro other hother
    exact .inl (by rw [hidle]; exact List.mem_cons_of_mem _ hother)
  · intro other hclean
    obtain ⟨rfl, -⟩ := Prod.mk.inj (Option.some.inj hclean)
    exact h.idle worker hmem
  · intro other hopened
    cases (Prod.mk.inj (Option.some.inj hopened)).2

/-- A clean worker goes back to the idle list. -/
theorem Attributed.pushIdle (h : Attributed codec s (before ++ g :: after))
    (hclean : g.holding = some (worker, .clean)) :
    Attributed codec { s with idle := worker :: s.idle }
      (before ++ { g with holding := none } :: after) := by
  have hown : g.worker? = some worker := by simp [Exchange.worker?, hclean]
  have hnone : Exchange.worker? { g with holding := none } = none := rfl
  have hlist : ((before ++ { g with holding := none } :: after).filterMap Exchange.worker? ++
      worker :: s.idle).Perm ((before ++ g :: after).filterMap Exchange.worker? ++ s.idle) := by
    rw [List.filterMap_append, List.filterMap_cons_none hnone, List.filterMap_append,
      List.filterMap_cons_some hown, List.append_assoc, List.append_assoc, List.cons_append]
    refine List.Perm.append_left _ ?_
    exact List.perm_middle
  refine h.replace h.timely (fun other _ => Moves.refl _) ?_ ?_ ?_ ?_ ⟨?_, ?_⟩
    (h.inTime g (by simp))
  · intro other hother
    rw [hnone] at hother
    cases hother
  · exact hlist.nodup_iff.mpr h.distinct
  · exact fun other hother => h.started other (hlist.mem_iff.mp hother)
  · intro other hother
    rcases List.mem_cons.mp hother with rfl | hother
    · exact .inr ((h.fits g (by simp)).clean other hclean)
    · exact .inl hother
  · intro other hother
    cases hother
  · intro other hother
    cases hother

/-- A new process belongs to the operation that started it. -/
theorem Attributed.spawn (h : Attributed codec s (before ++ g :: after))
    (hfree : g.holding = none) (hnumber : g.number = none) :
    Attributed codec (PoolState.carryOut .spawn s).2
      (before ++ { g with holding := some (s.started, .opened) } :: after) := by
  have hnone : g.worker? = none := by simp [Exchange.worker?, hfree]
  have hown : Exchange.worker? { g with holding := some (s.started, .opened) } =
      some s.started := rfl
  have hold : (before ++ g :: after).filterMap Exchange.worker? =
      (before ++ after).filterMap Exchange.worker? := by
    rw [List.filterMap_append, List.filterMap_cons_none hnone, ← List.filterMap_append]
  have hfresh : s.started ∉ (before ++ after).filterMap Exchange.worker? ++ s.idle := by
    intro hin
    rw [← hold] at hin
    exact lt_irrefl _ (h.started s.started hin)
  have hlist : ((before ++ { g with holding := some (s.started, .opened) } :: after).filterMap
      Exchange.worker? ++ s.idle).Perm
        (s.started :: ((before ++ after).filterMap Exchange.worker? ++ s.idle)) := by
    rw [List.filterMap_append, List.filterMap_cons_some hown, List.filterMap_append,
      List.append_assoc, List.append_assoc, List.cons_append]
    exact List.perm_middle
  have hprocess : (PoolState.carryOut .spawn s).2.processes s.started = {} := by
    simp [PoolState.carryOut]
  have hothers : ∀ other, other ≠ s.started →
      (PoolState.carryOut .spawn s).2.processes other = s.processes other := by
    intro other hother
    simp [PoolState.carryOut, hother]
  refine h.replace ?_ ?_ ?_ ?_ ?_ (fun other hin => .inl hin) ⟨?_, ?_⟩ (h.inTime g (by simp))
  · intro other
    by_cases hother : other = s.started
    · rw [hother, hprocess]
      exact .fresh
    · rw [hothers other hother]
      exact h.timely other
  · intro other hother
    have hne : other ≠ s.started := fun heq => hother (heq ▸ hown)
    rw [hothers other hne]
    exact Moves.refl _
  · intro other hother
    obtain rfl : s.started = other := Option.some.inj (hown.symm.trans hother)
    constructor
    · intro b hb hbown
      exact hfresh (List.mem_append_left _ (List.mem_filterMap.mpr ⟨b, hb, hbown⟩))
    · exact fun hin => hfresh (List.mem_append_right _ hin)
  · refine hlist.nodup_iff.mpr (List.nodup_cons.mpr ⟨hfresh, ?_⟩)
    rw [← hold]
    exact h.distinct
  · intro other hother
    show other < s.started + 1
    rcases List.mem_cons.mp (hlist.mem_iff.mp hother) with rfl | hother
    · omega
    · rw [← hold] at hother
      have hlt := h.started other hother
      omega
  · intro other hclean
    cases (Prod.mk.inj (Option.some.inj hclean)).2
  · intro other hopened
    obtain ⟨rfl, -⟩ := Prod.mk.inj (Option.some.inj hopened)
    rw [hprocess]
    exact ⟨⟨le_rfl, fun _ _ _ hi => absurd hi (Nat.not_lt_zero _)⟩, rfl, by simp [hnumber]⟩

/-- A request is given to a clean worker. -/
theorem Attributed.writeNewline (h : Attributed codec s (before ++ g :: after))
    (hclean : g.holding = some (worker, .clean)) (hline : g.line = none) :
    Attributed codec (PoolState.carryOut (.writeNewline worker) s).2 (before ++
      { g with
        holding := some (worker, .opened)
        number := some (worker, (s.processes worker).inputs.length + 1) } :: after) := by
  have hfit := (h.fits g (by simp)).clean worker hclean
  have hstate : (PoolState.carryOut (.writeNewline worker) s).2 = s.update worker fun p =>
      { p with typed := "", inputs := p.inputs ++ [p.typed] } := rfl
  rw [hstate]
  refine h.keep ?_ ?_ ?_ rfl rfl ⟨?_, ?_⟩ ?_
  · -- the requests before this one have been taken and answered
    have htimely := h.timely worker
    have htaken := htimely.taken
    have hanswered := hfit.answered
    refine timely_update h.timely (htimely.of_wrote rfl le_rfl ?_ ?_ htimely.reads)
    · show (s.processes worker).taken ≤ (_ ++ [_]).length
      rw [List.length_append]
      omega
    · show (_ ++ [_]).length ≤ _
      rw [List.length_append]
      exact hanswered.ge
  · intro other hother
    have hne : other ≠ worker := by
      rintro rfl
      exact hother (by simp [Exchange.worker?, hclean])
    rw [PoolState.update_ne s _ hne]
    exact Moves.refl _
  · simp [Exchange.worker?, hclean]
  · intro other hother
    cases (Prod.mk.inj (Option.some.inj hother)).2
  · intro other hother
    obtain ⟨rfl, -⟩ := Prod.mk.inj (Option.some.inj hother)
    rw [PoolState.update_self]
    refine ⟨⟨hfit.reads, hfit.kept⟩, ?_, ?_⟩
    · simpa using hfit.answered
    · simp
  · intro line hin
    exact absurd (hline.symm.trans hin) (by simp)

/-- **A response is read**: the next line, which was written after the request was taken. -/
theorem Attributed.readLine (h : Attributed codec s (before ++ g :: after)) {line : OutputLine}
    (hopened : g.holding = some (worker, .opened))
    (hnext : (s.processes worker).nextLine = some line) :
    Attributed codec (PoolState.carryOut (.readLine worker) s).2
      (before ++ g.read codec worker line :: after) := by
  have hfit := (h.fits g (by simp)).opened worker hopened
  have htaken := hfit.toUnbroken.nextLine (h.timely worker) hnext
  have hprocess : (PoolState.carryOut (.readLine worker) s).2.processes worker =
      { s.processes worker with reads := (s.processes worker).reads + 1 } := by
    simp [PoolState.carryOut, hnext]
  have hworker : (g.read codec worker line).worker? = g.worker? := by
    unfold Exchange.read
    split <;> simp [Exchange.worker?, hopened]
  have hread : (s.processes worker).reads + 1 = (s.processes worker).inputs.length + 1 := by
    rw [hfit.open_]
  refine h.keep ?_ ?_ hworker rfl rfl ⟨?_, ?_⟩ ?_
  · have htimely := h.timely worker
    obtain ⟨hlt, -⟩ := List.getElem?_eq_some_iff.mp hnext
    refine timely_update h.timely ?_
    rw [if_pos (by simp [hnext])]
    exact htimely.of_wrote rfl le_rfl htimely.taken (htimely.given.trans (Nat.le_succ _)) hlt
  · intro other hother
    have hne : other ≠ worker := by
      rintro rfl
      exact hother (by simp [Exchange.worker?, hopened])
    have hsame : (PoolState.carryOut (.readLine worker) s).2.processes other =
        s.processes other := PoolState.update_ne s _ hne
    rw [hsame]
    exact Moves.refl _
  · intro other hclean
    have hother : other = worker := by
      have hin : other ∈ (g.read codec worker line).worker? := by
        simp [Exchange.worker?, hclean]
      rw [hworker] at hin
      simpa [Exchange.worker?, hopened] using hin.symm
    subst hother
    rw [hprocess]
    refine ⟨hfit.toUnbroken.read hnext ?_, hread⟩
    cases hnumber : g.number with
    | none =>
        left
        rw [hfit.open_, hfit.last, hnumber]
        rfl
    | some number =>
        right
        simp only [Exchange.read, hnumber, Option.some.injEq, Prod.mk.injEq, true_and] at hclean
        by_contra hbreaks
        rw [if_pos (by simpa using hbreaks)] at hclean
        cases hclean
  · intro other hopen
    unfold Exchange.read at hopen
    split at hopen
    · cases (Prod.mk.inj (Option.some.inj hopen)).2
    · have hstage := (Prod.mk.inj (Option.some.inj hopen)).2
      split at hstage <;> cases hstage
  · unfold Exchange.read
    split
    · exact h.inTime g (by simp)
    · rename_i asked hasked
      intro answer hin
      obtain rfl := Option.some.inj hin
      refine ⟨asked, hasked, ?_⟩
      show asked.2 ≤ line.taken
      have hlast : (s.processes worker).inputs.length = asked.2 := by
        rw [hfit.last, hasked]
        rfl
      have hopen := hfit.open_
      omega

/-- A process ends. -/
theorem ended_moves (worker other : Nat) :
    Moves (s.processes other) ((s.ended worker).processes other) :=
  moves_update ⟨rfl, rfl, [], by simp⟩ other

theorem ended_timely (h : ∀ worker, Timely codec (s.processes worker)) (worker other : Nat) :
    Timely codec ((s.ended worker).processes other) :=
  timely_update h ((h worker).of_wrote rfl le_rfl (h worker).taken (h worker).given
    (h worker).reads) other

/-- The call of a future that was dropped. -/
theorem Attributed.dropped (h : Attributed codec s (before ++ g :: after)) (c : PoolCall) :
    Attributed codec (s.drop c)
      (before ++ (answered codec).next c (.error .dropped) g :: after) := by
  unfold PoolState.drop
  split
  · rename_i worker _
    exact h.interrupted c .dropped (ended_moves worker) (ended_timely h.timely worker) rfl rfl
  · exact h.interrupted c .dropped (fun _ => Moves.refl _) h.timely rfl rfl

/-- **Every call keeps the owners.**  Lines are written as the rule for workers says. -/
theorem Attributed.carryOut (h : Attributed codec s (before ++ g :: after)) {c : PoolCall}
    (hpre : (answered codec).pre c g)
    (hrule : ∀ worker text, c = .emit worker text → (s.processes worker).alive = true →
      MayEmit codec (s.processes worker) text) :
    Attributed codec (PoolState.carryOut c s).2
      (before ++ (answered codec).next c (.ok (PoolState.carryOut c s).1) g :: after) := by
  have hfits := h.fits g (by simp)
  have hinTime := h.inTime g (by simp)
  -- a call that leaves what is held alone, and lets one process move
  have hmove : ∀ (worker : Nat) (f : WorkerProcess → WorkerProcess) (g' : Exchange),
      g'.holding = g.holding → g'.number = g.number → g'.line = g.line →
      Moves (s.processes worker) (f (s.processes worker)) →
      Timely codec (f (s.processes worker)) →
      Attributed codec (s.update worker f) (before ++ g' :: after) := by
    intro worker f g' hholding hnumber hline hmoves htimely
    have hfits' : Fits codec (s.update worker f) g :=
      hfits.moves fun other _ => moves_update hmoves other
    refine h.keep (timely_update h.timely htimely) (fun other _ => moves_update hmoves other)
      ?_ rfl rfl ⟨?_, ?_⟩ ?_
    · rw [Exchange.worker?, Exchange.worker?, hholding]
    · rw [hholding]
      exact hfits'.clean
    · rw [hholding, hnumber]
      exact hfits'.opened
    · rw [InTime, hline, hnumber]
      exact hinTime
  cases c with
  | acquirePermit =>
      exact h.keep h.timely (fun _ _ => Moves.refl _) rfl rfl rfl
        (hfits.moves fun _ _ => Moves.refl _) hinTime
  | releasePermit =>
      exact h.keep h.timely (fun _ _ => Moves.refl _) rfl rfl rfl
        (hfits.moves fun _ _ => Moves.refl _) hinTime
  | popIdle =>
      cases hidle : s.idle with
      | nil =>
          have hnext : (answered codec).next .popIdle
              (.ok (PoolState.carryOut .popIdle s).1) g = g := by
            simp [answered, PoolState.carryOut, hidle]
          rw [hnext]
          exact h.keep h.timely (fun _ _ => Moves.refl _) rfl
            (by simp [PoolState.carryOut, hidle]) rfl
            (hfits.moves fun _ _ => Moves.refl _) hinTime
      | cons worker rest =>
          have hnext : (answered codec).next .popIdle
              (.ok (PoolState.carryOut .popIdle s).1) g =
                { g with holding := some (worker, .clean) } := by
            simp [answered, PoolState.carryOut, hidle]
          have hstate : (PoolState.carryOut .popIdle s).2 = { s with idle := rest } := by
            simp [PoolState.carryOut, hidle]
          rw [hnext, hstate]
          exact h.popIdle hidle hpre
  | pushIdle worker => exact h.pushIdle hpre
  | spawn => exact h.spawn hpre.1 hpre.2
  | writeAll worker text =>
      exact hmove worker (fun p => { p with typed := p.typed ++ text })
        { g with typed := some (worker, text) } rfl rfl rfl ⟨rfl, rfl, [], by simp⟩
        ((h.timely worker).of_wrote rfl le_rfl (h.timely worker).taken (h.timely worker).given
          (h.timely worker).reads)
  | writeNewline worker => exact h.writeNewline hpre.1 hpre.2
  | flush worker =>
      exact h.keep h.timely (fun _ _ => Moves.refl _) rfl rfl rfl
        (hfits.moves fun _ _ => Moves.refl _) hinTime
  | readLine worker =>
      cases hnext : (s.processes worker).nextLine with
      | none =>
          have hbook : (answered codec).next (.readLine worker)
              (.ok (PoolState.carryOut (.readLine worker) s).1) g = g.doom := by
            simp [answered, PoolState.carryOut, hnext]
          have hmoves : Moves (s.processes worker)
              (if (s.processes worker).nextLine.isSome then
                { s.processes worker with reads := (s.processes worker).reads + 1 }
                else s.processes worker) := by
            simpa [hnext] using Moves.refl _
          rw [hbook]
          refine h.keep (timely_update h.timely ?_) (fun other _ => moves_update hmoves other) ?_
            rfl rfl ⟨?_, ?_⟩ hinTime
          · simpa [hnext] using h.timely worker
          · simp [Exchange.worker?, Exchange.doom, Function.comp_def]
          · intro other hclean
            simp [Exchange.doom] at hclean
          · intro other hopened
            simp [Exchange.doom] at hopened
      | some line =>
          have hbook : (answered codec).next (.readLine worker)
              (.ok (PoolState.carryOut (.readLine worker) s).1) g = g.read codec worker line := by
            simp [answered, PoolState.carryOut, hnext]
          rw [hbook]
          exact h.readLine hpre hnext
  | kill worker =>
      exact h.discard (ended_timely h.timely worker) (ended_moves worker) rfl rfl rfl rfl rfl
  | takeRequest worker =>
      refine hmove worker _ g rfl rfl rfl ?_ ?_
      · split <;> exact ⟨rfl, rfl, [], by simp⟩
      · split
        · rename_i hlt
          exact (h.timely worker).of_wrote rfl (Nat.le_succ _) hlt (h.timely worker).given
            (h.timely worker).reads
        · exact h.timely worker
  | emit worker text =>
      cases halive : (s.processes worker).alive with
      | false =>
          refine hmove worker _ g rfl rfl rfl ?_ ?_
          · simpa [halive] using Moves.refl _
          · simpa [halive] using h.timely worker
      | true =>
          refine hmove worker _ g rfl rfl rfl ?_ ?_
          · simp only [halive, if_true]
            exact ⟨rfl, rfl, _, rfl⟩
          · rw [if_pos halive]
            exact (h.timely worker).emit (hrule worker text rfl halive)
  | exit worker =>
      exact hmove worker (fun p => { p with alive := false }) g rfl rfl rfl
        ⟨rfl, rfl, [], by simp⟩ ((h.timely worker).of_wrote rfl le_rfl (h.timely worker).taken
          (h.timely worker).given (h.timely worker).reads)

theorem Attributed.call (h : Attributed codec s (before ++ g :: after)) (env : PoolEnv)
    {c : PoolCall} (hpre : (answered codec).pre c g)
    (hrule : ∀ worker text, c = .emit worker text → (s.processes worker).alive = true →
      MayEmit codec (s.processes worker) text) :
    Attributed codec (PoolState.exec env c s).2
      (before ++ (answered codec).next c (PoolState.exec env c s).1 g :: after) := by
  rcases PoolState.exec_cases env c s with hexec | ⟨message, hexec⟩ | hexec
  · rw [hexec]
    exact h.dropped c
  · rw [hexec]
    exact h.interrupted c (.failed message) (fun _ => Moves.refl _) h.timely rfl rfl
  · rw [hexec]
    exact h.carryOut hpre hrule

end Steps

section Runs

variable {codec : LineCodec} {spec : SubprocessSpec} {size : Nat}

/-- An operation that begins holds nothing. -/
theorem Attributed.began {s : PoolState} {books : List Exchange} (h : Attributed codec s books) :
    Attributed codec s (books ++ [Exchange.empty]) := by
  have hlist : (books ++ [Exchange.empty]).filterMap Exchange.worker? =
      books.filterMap Exchange.worker? := by
    simp [Exchange.worker?, Exchange.empty]
  refine ⟨h.timely, ?_, ?_, h.idle, ?_, ?_⟩
  · rw [hlist]
    exact h.distinct
  · rw [hlist]
    exact h.started
  · intro g hg
    rcases List.mem_append.mp hg with hg | hg
    · exact h.fits g hg
    · obtain rfl := List.mem_singleton.mp hg
      constructor <;>
      · intro worker hholding
        cases hholding
  · intro g hg
    rcases List.mem_append.mp hg with hg | hg
    · exact h.inTime g hg
    · obtain rfl := List.mem_singleton.mp hg
      intro answer hline
      cases hline

/-- With orderly workers every worker has one owner at all times. -/
theorem attributedUpheld : (answered codec).Upheld (fun _ => True) (Attributed codec)
    (poolMachine codec spec) (orderlyWorkers codec) (freshPool size) where
  program s task _ := by
    cases task with
    | execute request => exact (execute_obeys.mono fun _ _ _ => trivial).toUnit
    | start => exact (start_obeys.mono fun _ _ _ => trivial).toUnit
    | takeRequest worker => exact ⟨trivial, fun _ _ => trivial⟩
    | emit worker text => exact ⟨trivial, fun _ _ => trivial⟩
    | exit worker => exact ⟨trivial, fun _ _ => trivial⟩
  obey := by
    intro t ht
    cases ht
  logs := by
    intro t ht
    cases ht
  holds := by
    refine ⟨fun _ => .fresh, List.nodup_nil, ?_, ?_, ?_, ?_⟩
    all_goals
      intro _ hmem
      cases hmem
  start s task _ h := h.began
  call s i env t c before after hturn h := by
    refine ⟨trivial, h.call env hturn.permitted ?_⟩
    rintro worker text rfl halive
    exact hturn.allowed halive

/-- The calls that the book tells of. -/
def Exchange.calls (g : Exchange) : List (Event poolCalls) :=
  (g.typed.map fun note => ⟨.writeAll note.1 note.2, .ok ()⟩).toList ++
    (g.number.map fun note => ⟨.writeNewline note.1, .ok note.2⟩).toList ++
    (g.line.map fun note => ⟨.readLine note.1, .ok (some note.2)⟩).toList

theorem calls_next (c : PoolCall) (r : poolCalls.Ret c) (g : Exchange) :
    ((answered codec).next c r g).calls ⊆ ⟨c, r⟩ :: g.calls := by
  intro e he
  simp only [answered] at he
  split at he
  case h_5 =>
    unfold Exchange.read at he
    split at he <;> simp [Exchange.calls] at he ⊢ <;> grind
  all_goals
    simp [Exchange.calls, Exchange.doom] at he ⊢
    grind

/-- What the book says was done. -/
theorem calls_logged (task : PoolTask) (log : List (Event poolCalls)) :
    ((answered codec).read task log).calls ⊆ log := by
  induction log with
  | nil => exact fun _ he => he
  | cons e log ih =>
      rw [Monitor.read_cons]
      exact List.Subset.trans (calls_next e.op e.ret _) (List.cons_subset_cons e ih)

/-- The outcome of an execution comes from the line that its worker wrote for its request:
it gave the request to the worker, as line `number` of its input, read `line` from the same
worker, and the worker had taken the request when it wrote the line. -/
def FromAnswer (codec : LineCodec) (log : List (Event poolCalls)) (request : String)
    (outcome : RustvelloResult String) : Prop :=
  ∃ worker number line, (⟨.writeAll worker request, .ok ()⟩ : Event poolCalls) ∈ log ∧
    (⟨.writeNewline worker, .ok number⟩ : Event poolCalls) ∈ log ∧
    (⟨.readLine worker, .ok (some line)⟩ : Event poolCalls) ∈ log ∧
    response codec line.text = outcome ∧ number ≤ line.taken

/-- **Results are attributed to the right invocation** when workers are orderly: a result, or
a task error, that an execution returns comes from a line that was written after its request
was taken, unless a worker failed before there was a line; and a worker that is given another
request has answered each of the earlier ones with one response. -/
theorem results_attributed {s : System poolCalls PoolState PoolTask}
    (hreach : Reachable (poolMachine codec spec) (orderlyWorkers codec) (freshPool size) s) :
    (∀ t ∈ s.threads, ∀ request, t.task = .execute request →
      (∀ result, t.returned (execute codec spec request).run = some (.ok result) →
        FromAnswer codec t.log request (.ok result)) ∧
      ∀ errorType message traceback,
        t.returned (execute codec spec request).run =
          some (.error (.error (.taskExecution errorType message traceback))) →
        FromAnswer codec t.log request (.error (.taskExecution errorType message traceback)) ∨
          errorType = crashType ∧ ((answered codec).book t).line = none) ∧
    ∀ worker ∈ s.shared.idle, ∀ number, 1 ≤ number →
      number ≤ (s.shared.processes worker).inputs.length →
      AnsweredOnce codec (s.shared.processes worker) number := by
  have hup := @attributedUpheld codec spec size
  obtain ⟨-, hattributed⟩ := hup.obeyed hreach
  refine ⟨?_, fun worker hidle number =>
    (hattributed.idle worker hidle).answeredOnce (hattributed.timely worker)⟩
  intro t ht request htask
  have hinTime := hattributed.inTime ((answered codec).book t) (List.mem_map_of_mem ht)
  have hlogged : ((answered codec).book t).calls ⊆ t.log := calls_logged t.task t.log
  have hobeys : (answered codec).Obeys (execute codec spec request).run
      (fun r g => Explained codec request r g) ((answered codec).start t.task) := execute_obeys
  have hanswer : ∀ outcome, Answered codec request ((answered codec).book t) outcome →
      FromAnswer codec t.log request outcome := by
    rintro outcome ⟨worker, number, line, htyped, hnumber, hline, hresponse⟩
    refine ⟨worker, number, line, hlogged (by simp [Exchange.calls, htyped]),
      hlogged (by simp [Exchange.calls, hnumber]), hlogged (by simp [Exchange.calls, hline]),
      hresponse, ?_⟩
    obtain ⟨asked, hasked, hle⟩ := hinTime _ hline
    obtain rfl := Option.some.inj (hnumber.symm.trans hasked)
    exact hle
  constructor
  · intro result hreturned
    exact hanswer _ (hup.outcome hreach ht hobeys hreturned)
  · intro errorType message traceback hreturned
    rcases hup.outcome hreach ht hobeys hreturned with ⟨hcrash, hnone⟩ | hother | hfrom
    · exact .inr ⟨of_decide_eq_true hcrash, hnone⟩
    · exact absurd rfl (hother _ _ _)
    · exact .inl (hanswer _ hfrom)

end Runs

/-! ## Two executions on one worker -/

def readyLine : String := "\x7b\"ready\":true\x7d"

def answerLine : String := "\x7b\"ok\":true,\"result\":\"1\"\x7d"

/-- What a child process of a task prints: the standard output it inherits is that of its
worker. -/
def strayLine : String := "\x7b\"ok\":true,\"result\":\"2\"\x7d"

/-- JSON, but no response. -/
def progressLine : String := "\x7b\"progress\":true\x7d"

def smallCodec : LineCodec where
  parse line :=
    if line = readyLine then .ok (.object [("ready", .bool true)])
    else if line = answerLine then .ok (.object [("ok", .bool true), ("result", .string "1")])
    else if line = strayLine then .ok (.object [("ok", .bool true), ("result", .string "2")])
    else if line = progressLine then .ok (.object [("progress", .bool true)])
    else .error "expected value at line 1 column 1"
  debug line := line.quote

def smallSpec : SubprocessSpec := { command := ["python"] }

instance (codec : LineCodec) (s : System poolCalls PoolState PoolTask) (task : PoolTask) :
    Decidable ((orderlyWorkers codec).start s task) :=
  .isTrue trivial

instance (codec : LineCodec) (s : System poolCalls PoolState PoolTask) (i : Nat)
    (c : poolCalls.Op) : Decidable ((orderlyWorkers codec).call s i c) := by
  cases c
  case emit worker text => exact inferInstanceAs (Decidable (_ → MayEmit codec _ _))
  all_goals exact .isTrue trivial

def calm : PoolEnv := {}

/-- The worker announces itself, takes the request `"a"` and writes `line`. -/
def answeredBy (line : String) : List (Label PoolEnv PoolTask) :=
  .start (.execute "a") :: Label.steps 0 3 calm ++
    .start (.emit 0 readyLine) :: Label.steps 1 1 calm ++ Label.steps 0 4 calm ++
    .start (.takeRequest 0) :: Label.steps 2 1 calm ++
    .start (.emit 0 line) :: Label.steps 3 1 calm ++ Label.steps 0 3 calm

theorem results_attributed_once :
    ∃ s, Reachable (poolMachine smallCodec smallSpec) (orderlyWorkers smallCodec) (freshPool 1) s ∧
      (∃ t ∈ s.threads, t.task = .execute "a" ∧ FromAnswer smallCodec t.log "a" (.ok "1")) ∧
      0 ∈ s.shared.idle ∧ AnsweredOnce smallCodec (s.shared.processes 0) 1 := by
  obtain ⟨s, hreach, ⟨t, ht, htask, hreturned⟩, hidle, hgiven⟩ := Reachable.exists_of_run
    (poolMachine smallCodec smallSpec) (orderlyWorkers smallCodec) (freshPool 1)
    (answeredBy answerLine)
    (fun s => (∃ t ∈ s.threads, t.task = .execute "a" ∧
      t.returned (execute smallCodec smallSpec "a").run = some (.ok "1")) ∧
      0 ∈ s.shared.idle ∧ (s.shared.processes 0).inputs.length = 1)
    (by decide +kernel) (by decide +kernel)
  obtain ⟨hreturns, hidles⟩ := results_attributed hreach
  exact ⟨s, hreach, ⟨t, ht, htask, (hreturns t ht "a" htask).1 "1" hreturned⟩, hidle,
    hidles 0 hidle 1 le_rfl hgiven.ge⟩

/-- The request was the second line of the worker's input, or the line was written after the
first one had been taken. -/
def tooEarly : Event poolCalls → Bool
  | ⟨.writeNewline _, .ok number⟩ => number = 2
  | ⟨.readLine _, .ok (some line)⟩ => line.taken = 1
  | _ => true

/-- **A line too many is the result of the next invocation.**  The worker answers `"a"`, and
prints a second line; the execution of `"b"` takes it for its response, before the worker has
taken the request. -/
theorem stray_line_returned :
    ∃ s, Reachable (poolMachine smallCodec smallSpec) (Guard.top poolCalls PoolState PoolTask)
        (freshPool 1) s ∧
      ∃ t ∈ s.threads, t.task = .execute "b" ∧
        t.returned (execute smallCodec smallSpec "b").run = some (.ok "2") ∧
        ¬ FromAnswer smallCodec t.log "b" (.ok "2") := by
  obtain ⟨s, hreach, t, ht, htask, hreturned, hearly⟩ := Reachable.exists_of_run
    (poolMachine smallCodec smallSpec) (Guard.top poolCalls PoolState PoolTask) (freshPool 1)
    (answeredBy answerLine ++ .start (.emit 0 strayLine) :: Label.steps 4 1 calm ++
      .start (.execute "b") :: Label.steps 5 8 calm)
    (fun s => ∃ t ∈ s.threads, t.task = .execute "b" ∧
      t.returned (execute smallCodec smallSpec "b").run = some (.ok "2") ∧
      ∀ e ∈ t.log, tooEarly e = true)
    (Guard.allowsAll_top _ _ _) (by decide +kernel)
  refine ⟨s, hreach, t, ht, htask, hreturned, ?_⟩
  rintro ⟨worker, number, line, -, hnumber, hline, -, hle⟩
  have htwo : number = 2 := by simpa [tooEarly] using hearly _ hnumber
  have hone : line.taken = 1 := by simpa [tooEarly] using hearly _ hline
  rw [htwo, hone] at hle
  exact Nat.not_succ_le_self 1 hle

/-- **A worker that broke the protocol goes back to the pool.**  It has written one line for
the request, but no response. -/
theorem progress_line_kept :
    ∃ s, Reachable (poolMachine smallCodec smallSpec) (Guard.top poolCalls PoolState PoolTask)
        (freshPool 1) s ∧
      0 ∈ s.shared.idle ∧ (s.shared.processes 0).inputs.length = 1 ∧
        ¬ AnsweredOnce smallCodec (s.shared.processes 0) 1 := by
  obtain ⟨s, hreach, hidle, hgiven, hlines⟩ := Reachable.exists_of_run
    (poolMachine smallCodec smallSpec) (Guard.top poolCalls PoolState PoolTask) (freshPool 1)
    (answeredBy progressLine)
    (fun s => 0 ∈ s.shared.idle ∧ (s.shared.processes 0).inputs.length = 1 ∧
      ∀ line ∈ (s.shared.processes 0).wrote, isResponse smallCodec line.text = false)
    (Guard.allowsAll_top _ _ _) (by decide +kernel)
  refine ⟨s, hreach, hidle, hgiven, ?_⟩
  rintro ⟨i, line, hline, -, hword, -⟩
  exact absurd ((hlines line (List.mem_of_getElem? hline)).symm.trans hword) (by decide)

end Runner
end Rustvello
