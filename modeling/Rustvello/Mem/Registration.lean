import Rustvello.Mem.Runners
import Rustvello.Orchestration.Registration

/-!
# One unfinished invocation for each registration key

`submit_with_registration_control` lists the unfinished invocations of a task, compares their
keys, and registers a new one when none has the requested key.  List and registration are two
calls with reads in between, so two requests with one key can both find nothing.

* `Search`, `registering` — what a request has found so far, and the discipline: it registers
  only after everything it listed was compared;
* `Deduplicated` — the invariant: every unfinished invocation with the key of a searching request
  is still to be compared;
* `searchesAlone` — no request lists while another one with its key is between listing and
  registering, and what a request compares is stored;
* `registration_deduplicates` — then a key has one unfinished invocation, and each request
  returns an invocation with its key that was unfinished during the request.
-/

namespace Rustvello.Mem

open Concurrency Proto Rustvello.Core Orchestration

inductive RegistrationTask where
  | register (request : RegistrationRequest)
  | worker (op : Operation)
deriving DecidableEq

def RegistrationTask.request? : RegistrationTask → Option RegistrationRequest
  | register request => some request
  | worker _ => none

def RegistrationTask.program (d : Deployment) : RegistrationTask → Prog runnerPorts Unit
  | register request => (submitWithRegistrationControl d request).run.toUnit
  | worker op => (op.program d).inl

/-- Requests and workers over the in-memory backends of one process. -/
def registrationMachine (d : Deployment) : Machine runnerPorts MemRuntime Env RegistrationTask where
  exec := MemRuntime.execRunner
  program := RegistrationTask.program d

/-- The invocation is registered and has not finished. -/
def OrchestratorState.isUnfinished (s : OrchestratorState) (id : InvocationId) : Bool :=
  (s.statusOf id).any fun status => !status.isTerminal

/-! ## The discipline -/

/-- What a request has found so far. -/
structure Search where
  request : Option RegistrationRequest
  /-- Between the list and the registration. -/
  searching : Bool := false
  /-- Listed and not compared yet. -/
  listed : List InvocationId := []
  read : Option (InvocationId × InvocationDTO) := none
  answer : Option InvocationId := none
  /-- Registered and not routed yet. -/
  unrouted : Bool := false

/-- The list has come: a task that registers one invocation at a time takes the first. -/
def Search.list (d : Deployment) (g : Search) (taskId : TaskId) (ids : List InvocationId) :
    Search :=
  if g.answer.isSome then g
  else if (d.configForTask taskId).map TaskConfig.registrationConcurrency = some .task then
    match ids with
    | [] => { g with searching := true, listed := [] }
    | id :: _ => { g with searching := false, answer := some id }
  else { g with searching := true, listed := ids }

/-- The arguments of the next listed invocation have come. -/
def Search.compare (d : Deployment) (g : Search) (args : SerializedArguments) : Search :=
  match g.request, g.listed with
  | some r, id :: rest =>
      if d.registrationKey r.taskId args = r.key d then
        { g with searching := false, answer := some id }
      else { g with listed := rest }
  | _, _ => g

def Search.next (d : Deployment) : (c : runnerPorts.Op) → runnerPorts.Ret c → Search → Search
  | .inr (.getExistingInvocations taskId _ _), .ok ids, g => g.list d taskId ids
  | .inl (.getInvocation id), .ok invocation, g => { g with read := some (id, invocation) }
  | .inl (.getCall _), .ok call, g =>
      if g.searching then g.compare d call.serializedArguments else g
  | .inl (.registerInvocationWithId id _ _), _, g =>
      { g with searching := false, answer := some id, unrouted := true }
  | .inl (.routeInvocationWithOptions _ _ _ _), .ok _, g => { g with unrouted := false }
  | _, _, g => g

/-- No call of a request is refused. -/
def Granted : (c : runnerPorts.Op) → runnerPorts.Ret c → Prop
  | .inr (.getExistingInvocations _ _ _), .error _
  | .inl (.getInvocation _), .error _ | .inl (.getCall _), .error _
  | .inl (.registerInvocationWithId _ _ _), .error _ | .inl (.upsertInvocation _ _), .error _
  | .inl .utcNow, .error _ | .inl (.addHistory _), .error _
  | .inl (.routeInvocationWithOptions _ _ _ _), .error _ => False
  | _, _ => True

def registering (d : Deployment) : Discipline runnerPorts RegistrationTask Search where
  start task := { request := task.request? }
  next := Search.next d
  pre
    | .inr (.getExistingInvocations taskId ccArgs statuses), g => ∃ r, g.request = some r ∧
        taskId = r.taskId ∧ ccArgs = none ∧ statuses = nonTerminalStatuses ∧
        g.answer = none ∧ (r.key d).isSome = true
    | .inl (.getInvocation id), g => g.searching = true → ∃ rest, g.listed = id :: rest
    | .inl (.getCall callId), g => g.searching = true → ∃ id rest invocation,
        g.listed = id :: rest ∧ g.read = some (id, invocation) ∧ invocation.callId = callId
    | .inl (.registerInvocationWithId id call _), g => ∃ r, g.request = some r ∧
        id = r.invocationId ∧ call = r.call d ∧
        ((r.key d).isSome = true → g.searching = true ∧ g.listed = [])
    | .inl (.upsertInvocation invocation call), g => ∃ r, g.request = some r ∧
        invocation.invocationId = r.invocationId ∧ invocation.callId = (r.call d).callId ∧
        call = r.call d
    | .inl (.routeInvocationWithOptions _ _ queue priority), g => g.request.isSome = true →
        validateRouting queue priority = .ok ()
    | _, _ => True
  resp c g r := RunnerTruthful c r ∧ (g.request.isSome = true → Granted c r)

/-- Neither searching nor about to route. -/
structure Search.Settled (g : Search) : Prop where
  compared : g.searching = false
  routed : g.unrouted = false

section Programs

variable {d : Deployment} {r : RegistrationRequest} {g : Search}

/-- A call of a request that leaves the book, then the rest. -/
theorem obeysE_search_bind {β : Type} {c : PortCall} {f : c.Ans → Orch β} {Q : β → Search → Prop}
    {E : RustvelloError → Search → Prop} (hrequest : g.request.isSome = true)
    (hpre : (registering d).pre (.inl c) g) (hgranted : ∀ e, ¬ Granted (.inl c) (.error e))
    (hf : ∀ a, (registering d).left.ObeysE (f a) Q E (Search.next d (.inl c) (.ok a) g)) :
    (registering d).left.ObeysE (port c >>= f) Q E g := by
  refine obeysE_port_bind.mpr ⟨hpre, fun a _ => hf a, ?_⟩
  rintro e ⟨-, herror⟩
  exact absurd (herror hrequest) (hgranted e)

/-- The route of a task is valid. -/
def ValidRoute (d : Deployment) (taskId : TaskId) : Prop :=
  ∀ config ∈ d.configForTask taskId, validateRouting config.queue config.priority = .ok ()

theorem submitWithId_registers (hd : d.publication = false) (hrequest : g.request = some r)
    (hconfig : (d.configForTask r.taskId).isSome = true) (hroute : ValidRoute d r.taskId)
    (hsearch : (r.key d).isSome = true → g.searching = true ∧ g.listed = []) :
    (registering d).left.ObeysE (submitWithId d (r.submission d))
      (fun id g' => g'.answer = some id ∧ g'.Settled) (fun _ _ => False) g := by
  have hsome : g.request.isSome = true := by simp [hrequest]
  unfold submitWithId
  cases hbase : d.catalog.registry (r.submission d).call.taskId with
  | none =>
      have hnone : d.catalog.registry r.taskId = none := hbase
      simp [Deployment.configForTask, hnone] at hconfig
  | some base =>
      have hvalid : validateRouting
          (d.catalog.resolveConfig d.appConfig r.taskId base).queue
          (d.catalog.resolveConfig d.appConfig r.taskId base).priority = .ok () := by
        refine hroute _ ?_
        have hregistry : d.catalog.registry r.taskId = some base := hbase
        simp [Deployment.configForTask, hregistry]
      dsimp only
      refine obeysE_search_bind hsome trivial (fun _ h => h) ?_
      intro now
      rw [if_neg (by simp [hd])]
      unfold submitOrdered
      rw [Discipline.obeysE_bind]
      refine obeysE_search_bind hsome ⟨r, hrequest, rfl, rfl, hsearch⟩ (fun _ h => h) ?_
      intro record
      refine obeysE_search_bind hsome ⟨r, hrequest, rfl, rfl, rfl⟩ (fun _ h => h) ?_
      intro _
      refine obeysE_search_bind hsome trivial (fun _ h => h) ?_
      intro now'
      refine obeysE_search_bind hsome trivial (fun _ h => h) ?_
      intro _
      refine obeysE_port.mpr ⟨fun _ => hvalid, ?_⟩
      rintro (e | _) ⟨-, hgranted⟩
      · exact (hgranted hsome).elim
      · exact ⟨rfl, rfl, rfl⟩

theorem findExisting_compares {config : TaskConfig} (hrequest : g.request = some r)
    (hconfig : d.configForTask r.taskId = some config)
    (hmode : config.registrationConcurrency ≠ .task) (ids : List InvocationId)
    (hsearching : g.searching = true) (hrouted : g.unrouted = false) (hlisted : g.listed = ids) :
    (registering d).left.ObeysE (findExisting config
        (concurrencyArguments config.registrationConcurrency config.keyArguments r.args) ids)
      (fun found g' => g'.request = some r ∧ g'.unrouted = false ∧ match found with
        | some id => g'.answer = some id ∧ g'.searching = false
        | none => g'.searching = true ∧ g'.listed = [])
      (fun _ _ => False) g := by
  induction ids generalizing g with
  | nil => exact ⟨hrequest, hrouted, hsearching, hlisted⟩
  | cons id rest ih =>
      have hsome : g.request.isSome = true := by simp [hrequest]
      unfold findExisting
      rw [if_neg hmode]
      refine obeysE_search_bind hsome (fun _ => ⟨rest, hlisted⟩) (fun _ h => h) ?_
      intro invocation
      refine obeysE_search_bind hsome (fun _ => ⟨id, rest, invocation, hlisted, rfl, rfl⟩)
        (fun _ h => h) ?_
      intro call
      have hkey : ∀ args, d.registrationKey r.taskId args =
          concurrencyArguments config.registrationConcurrency config.keyArguments args := by
        intro args
        simp only [Deployment.registrationKey, hconfig, Option.bind_some]
      show (registering d).left.ObeysE _ _ _ (if g.searching then Search.compare d
        { g with read := some (id, invocation) } call.serializedArguments else _)
      rw [if_pos hsearching]
      simp only [Search.compare, hrequest, hlisted, RegistrationRequest.key, hkey]
      split
      · exact ⟨rfl, hrouted, rfl, rfl⟩
      · exact ih rfl hsearching hrouted rfl

/-- A request registers only what it did not find, and returns what it found or registered. -/
theorem submitWithRegistrationControl_registers (hd : d.publication = false)
    (hroute : ValidRoute d r.taskId) :
    (registering d).ObeysE (submitWithRegistrationControl d r)
      (fun id g => g.answer = some id ∧ g.Settled)
      (fun _ g => d.configForTask r.taskId = none ∧ g.Settled) { request := some r } := by
  unfold submitWithRegistrationControl
  cases hconfig : d.configForTask r.taskId with
  | none => exact ⟨rfl, rfl, rfl⟩
  | some config =>
      have hisSome : (d.configForTask r.taskId).isSome = true := by simp [hconfig]
      have hsubmit : ∀ g : Search, g.request = some r →
          ((r.key d).isSome = true → g.searching = true ∧ g.listed = []) →
          (registering d).ObeysE (lift (submitWithId d (r.submission d)))
            (fun id g => g.answer = some id ∧ g.Settled)
            (fun _ g => some config = none ∧ g.Settled) g := by
        intro g hrequest hsearch
        rw [obeysE_lift]
        exact (submitWithId_registers hd hrequest hisSome hroute hsearch).mono
          (fun _ _ h => h) fun _ _ h => h.elim
      dsimp only
      split
      · rename_i hunlimited
        apply hsubmit _ rfl
        intro hkey
        exact absurd hunlimited ((RegistrationRequest.key_isSome hconfig).mp hkey)
      · rename_i hlimited
        have hkey := (RegistrationRequest.key_isSome hconfig).mpr hlimited
        refine obeysE_runnerPort_bind.mpr ⟨⟨r, rfl, rfl, rfl, rfl, rfl, hkey⟩, ?_, ?_⟩
        · intro ids _
          show (registering d).ObeysE _ _ _ (Search.list d { request := some r } r.taskId ids)
          simp only [Search.list, Option.isSome_none, Bool.false_eq_true, if_false, hconfig,
            Option.map_some, Option.some.injEq]
          by_cases hmode : config.registrationConcurrency = .task
          · rw [if_pos hmode]
            cases ids with
            | nil =>
                show (registering d).ObeysE (lift (submitWithId d (r.submission d))) _ _ _
                exact hsubmit _ rfl fun _ => ⟨rfl, rfl⟩
            | cons id rest =>
                rw [Discipline.obeysE_bind, obeysE_lift, findExisting, if_pos hmode]
                exact ⟨rfl, rfl, rfl⟩
          · rw [if_neg hmode]
            apply Discipline.ObeysE.bind (R := fun found g' => g'.request = some r ∧
              g'.unrouted = false ∧ match found with
                | some id => g'.answer = some id ∧ g'.searching = false
                | none => g'.searching = true ∧ g'.listed = [])
            · rw [obeysE_lift]
              refine (findExisting_compares rfl hconfig hmode ids rfl rfl rfl).mono
                (fun _ _ h => h) fun _ _ h => h.elim
            · rintro (_ | id) g' ⟨hrequest, hrouted, hfound⟩
              · exact hsubmit g' hrequest fun _ => hfound
              · exact ⟨hfound.1, hfound.2, hrouted⟩
        · rintro e ⟨-, hgranted⟩
          exact (hgranted rfl).elim

/-- A worker searches for nothing. -/
structure Search.Idle (g : Search) : Prop extends g.Settled where
  worker : g.request = none

theorem keeps_idle_of_serves {c : PortCall} (h : Serves c) :
    (registering d).Keeps Search.Idle (.inl c) := by
  intro g hg
  have hsearching : g.searching = true → False := by simp [hg.compared]
  cases c <;> first
    | exact ⟨trivial, fun _ _ => hg⟩
    | exact h.elim
    | skip
  case getInvocation id =>
    refine ⟨fun h => (hsearching h).elim, fun r _ => ?_⟩
    cases r with
    | error e => exact hg
    | ok invocation => exact ⟨⟨hg.compared, hg.routed⟩, hg.worker⟩
  case getCall callId =>
    refine ⟨fun h => (hsearching h).elim, fun r _ => ?_⟩
    cases r with
    | error e => exact hg
    | ok call =>
        show Search.Idle (if g.searching = true then _ else g)
        rw [if_neg hsearching]
        exact hg
  case routeInvocationWithOptions id taskId queue priority =>
    refine ⟨fun h => absurd h (by simp [hg.worker]), fun r _ => ?_⟩
    cases r with
    | error e => exact hg
    | ok _ => exact ⟨⟨hg.compared, rfl⟩, hg.worker⟩

theorem program_registers (hd : d.publication = false) {task : RegistrationTask}
    (htask : ∀ op, task = .worker op → op.isWorker = true)
    (hroute : ∀ r ∈ task.request?, ValidRoute d r.taskId) :
    (registering d).Obeys (task.program d) (fun _ => Search.Settled)
      ((registering d).start task) := by
  cases task with
  | register request =>
      apply Discipline.Obeys.toUnit
      refine Discipline.Obeys.mono (submitWithRegistrationControl_registers hd (hroute _ rfl)) ?_
      rintro (e | id) g hg
      · exact hg.2
      · exact hg.2
  | worker op =>
      have huses : ((op.program d).inl : Prog runnerPorts Unit).Uses (registering d).Answers
          ((registering d).Keeps Search.Idle) := by
        apply Prog.uses_inl
        refine Prog.Uses.mono (Operation.program_serves hd (htask op rfl)) ?_ ?_
        · rintro c a ⟨g, hresp, -⟩
          exact hresp
        · exact fun c hc => keeps_idle_of_serves hc
      refine (Discipline.Obeys.of_keeps huses ⟨⟨rfl, rfl⟩, rfl⟩).mono ?_
      intro _ g hg
      exact hg.toSettled

end Programs

/-! ## The invariant -/

/-- What the operations were asked for. -/
def requests (books : List Search) : List RegistrationRequest :=
  books.filterMap Search.request

/-- Two requests for one key. -/
structure Rivals (d : Deployment) (r r' : RegistrationRequest) : Prop where
  limited : (r.key d).isSome = true
  task : r.taskId = r'.taskId
  key : r.key d = r'.key d

theorem Rivals.symm {d : Deployment} {r r' : RegistrationRequest} (h : Rivals d r r') :
    Rivals d r' r :=
  ⟨by rw [← h.key]; exact h.limited, h.task.symm, h.key.symm⟩

theorem Rivals.refl {d : Deployment} {r : RegistrationRequest} (h : (r.key d).isSome = true) :
    Rivals d r r :=
  ⟨h, rfl, rfl⟩

/-- The stored invocation is that of a request. -/
def Requested (d : Deployment) (asked : List RegistrationRequest) (id : InvocationId)
    (invocation : InvocationDTO) : Prop :=
  ∃ r ∈ asked, r.invocationId = id ∧ invocation.callId = (r.call d).callId

/-- Everything stored comes from a request, a searching request has no searching rival and has
still to compare every unfinished invocation of its key, and no key has two of them. -/
structure Deduplicated (d : Deployment) (s : MemRuntime) (books : List Search) : Prop where
  distinct : ((requests books).map RegistrationRequest.invocationId).Nodup
  digests : ∀ r ∈ requests books, ∀ r' ∈ requests books,
    (r.call d).callId = (r'.call d).callId → r.args = r'.args
  known : ∀ id, s.orchestrator.isUnfinished id = true → ∃ r ∈ requests books, r.invocationId = id
  owned : ∀ taskId, ∀ id ∈ (s.orchestrator.taskInvocations.lookup taskId).getD ∅,
    ∃ r ∈ requests books, r.invocationId = id ∧ r.taskId = taskId
  indexed : ∀ r ∈ requests books, s.orchestrator.isUnfinished r.invocationId = true →
    r.invocationId ∈ (s.orchestrator.taskInvocations.lookup r.taskId).getD ∅
  invocations : ∀ id invocation, s.backend.invocations.lookup id = some invocation →
    Requested d (requests books) id invocation
  calls : ∀ callId call, s.backend.calls.lookup callId = some call →
    ∃ r ∈ requests books, call = r.call d ∧ callId = (r.call d).callId
  read : ∀ g ∈ books, ∀ id invocation, g.read = some (id, invocation) →
    Requested d (requests books) id invocation
  listed : ∀ g ∈ books, ∀ r, g.request = some r → ∀ id ∈ g.listed,
    ∃ r' ∈ requests books, r'.invocationId = id ∧ r'.taskId = r.taskId
  exclusive : ∀ g ∈ books, ∀ g' ∈ books, ∀ r r', g.request = some r → g'.request = some r' →
    g.searching = true → g'.searching = true → Rivals d r r' → r.invocationId = r'.invocationId
  covered : ∀ g ∈ books, ∀ r, g.request = some r → g.searching = true →
    ∀ r' ∈ requests books, Rivals d r r' → s.orchestrator.isUnfinished r'.invocationId = true →
    r'.invocationId ∈ g.listed
  unique : ∀ r ∈ requests books, ∀ r' ∈ requests books, Rivals d r r' →
    s.orchestrator.isUnfinished r.invocationId = true →
    s.orchestrator.isUnfinished r'.invocationId = true → r.invocationId = r'.invocationId
  answered : ∀ g ∈ books, ∀ r id, g.request = some r → (r.key d).isSome = true →
    g.answer = some id → ∃ r' ∈ requests books, r'.invocationId = id ∧ Rivals d r r'

section Invariant

variable {d : Deployment} {s s' : MemRuntime} {before after : List Search} {g g' : Search}
  {r : RegistrationRequest}

theorem requests_replace (h : g'.request = g.request) :
    requests (before ++ g' :: after) = requests (before ++ g :: after) := by
  simp [requests, List.filterMap_cons, h]

theorem mem_requests {books : List Search} (hg : g ∈ books)
    (hrequest : g.request = some r) : r ∈ requests books :=
  List.mem_filterMap.mpr ⟨g, hg, hrequest⟩

/-- The id tells the request. -/
theorem Deduplicated.request_eq {books : List Search} (h : Deduplicated d s books)
    {r r' : RegistrationRequest} (hr : r ∈ requests books) (hr' : r' ∈ requests books)
    (hid : r.invocationId = r'.invocationId) : r = r' :=
  List.inj_on_of_nodup_map h.distinct hr hr' hid

/-- No other operation has the same request. -/
theorem Deduplicated.other_ne (h : Deduplicated d s (before ++ g :: after))
    {r r' : RegistrationRequest} (hrequest : g.request = some r) {x : Search}
    (hx : x ∈ before ++ after) (hx' : x.request = some r') : r.invocationId ≠ r'.invocationId := by
  have hdistinct := h.distinct
  simp only [requests, List.filterMap_append, List.filterMap_cons, hrequest, List.map_append,
    List.map_cons] at hdistinct
  have hmem : r'.invocationId ∈ (before.filterMap Search.request).map
      RegistrationRequest.invocationId ++ (after.filterMap Search.request).map
        RegistrationRequest.invocationId := by
    rw [← List.map_append, ← List.filterMap_append]
    exact List.mem_map_of_mem (List.mem_filterMap.mpr ⟨x, hx, hx'⟩)
  intro heq
  rw [← heq] at hmem
  exact (List.nodup_middle.mp hdistinct).notMem hmem

/-- While a request searches, no rival does. -/
theorem Deduplicated.alone (h : Deduplicated d s (before ++ g :: after))
    {r r' : RegistrationRequest} (hrequest : g.request = some r) (hsearching : g.searching = true)
    {x : Search} (hx : x ∈ before ++ after) (hx' : x.request = some r')
    (hxs : x.searching = true) : ¬ Rivals d r r' := by
  intro hrivals
  have hmem : x ∈ before ++ g :: after := by
    rcases List.mem_append.mp hx with hx | hx <;> simp [hx]
  exact h.other_ne hrequest hx hx'
    (h.exclusive g (by simp) x hmem r r' hrequest hx' hsearching hxs hrivals)

/-- A call that creates nothing. -/
theorem Deduplicated.step (h : Deduplicated d s (before ++ g :: after))
    (hrequest : g'.request = g.request)
    (htasks : s'.orchestrator.taskInvocations = s.orchestrator.taskInvocations)
    (hunfinished : ∀ id, s'.orchestrator.isUnfinished id = true →
      s.orchestrator.isUnfinished id = true)
    (hinvocations : s'.backend.invocations = s.backend.invocations)
    (hcalls : s'.backend.calls = s.backend.calls)
    (hread : ∀ id invocation, g'.read = some (id, invocation) →
      Requested d (requests (before ++ g :: after)) id invocation)
    (hlisted : ∀ r, g.request = some r → ∀ id ∈ g'.listed,
      ∃ r' ∈ requests (before ++ g :: after), r'.invocationId = id ∧ r'.taskId = r.taskId)
    (halone : g'.searching = true → ∀ r, g.request = some r → ∀ x ∈ before ++ after,
      ∀ r', x.request = some r' → x.searching = true → ¬ Rivals d r r')
    (hcovered : g'.searching = true → ∀ r, g.request = some r →
      ∀ r' ∈ requests (before ++ g :: after), Rivals d r r' →
      s.orchestrator.isUnfinished r'.invocationId = true → r'.invocationId ∈ g'.listed)
    (hanswered : ∀ r id, g.request = some r → (r.key d).isSome = true → g'.answer = some id →
      ∃ r' ∈ requests (before ++ g :: after), r'.invocationId = id ∧ Rivals d r r') :
    Deduplicated d s' (before ++ g' :: after) := by
  have hrequests : requests (before ++ g' :: after) = requests (before ++ g :: after) :=
    requests_replace hrequest
  constructor
  case distinct => rw [hrequests]; exact h.distinct
  case digests => rw [hrequests]; exact h.digests
  case known => rw [hrequests]; exact fun id hid => h.known id (hunfinished id hid)
  case owned => rw [hrequests, htasks]; exact h.owned
  case indexed =>
    rw [hrequests, htasks]
    exact fun r hr hid => h.indexed r hr (hunfinished _ hid)
  case invocations => rw [hrequests, hinvocations]; exact h.invocations
  case calls => rw [hrequests, hcalls]; exact h.calls
  case read =>
    rw [hrequests]
    intro x hx id invocation hx'
    rcases (mem_replaced hx).symm with rfl | hx
    · exact hread id invocation hx'
    · exact h.read x (mem_of_others hx g) id invocation hx'
  case listed =>
    rw [hrequests]
    intro x hx r hr
    rcases (mem_replaced hx).symm with rfl | hx
    · exact hlisted r (hrequest ▸ hr)
    · exact h.listed x (mem_of_others hx g) r hr
  case exclusive =>
    intro x hx y hy r r' hr hr' hxs hys hrivals
    rcases (mem_replaced hx).symm with rfl | hxold
    · rcases (mem_replaced hy).symm with rfl | hyold
      · rw [hr] at hr'
        rw [Option.some.inj hr']
      · exact absurd hrivals (halone hxs r (hrequest ▸ hr) y hyold r' hr' hys)
    · rcases (mem_replaced hy).symm with rfl | hyold
      · exact absurd hrivals.symm (halone hys r' (hrequest ▸ hr') x hxold r hr hxs)
      · exact h.exclusive x (mem_of_others hxold g) y (mem_of_others hyold g) r r' hr hr' hxs hys hrivals
  case covered =>
    rw [hrequests]
    intro x hx r hr hxs r' hr' hrivals hid
    rcases (mem_replaced hx).symm with rfl | hx
    · exact hcovered hxs r (hrequest ▸ hr) r' hr' hrivals (hunfinished _ hid)
    · exact h.covered x (mem_of_others hx g) r hr hxs r' hr' hrivals (hunfinished _ hid)
  case unique =>
    rw [hrequests]
    exact fun r hr r' hr' hrivals hid hid' =>
      h.unique r hr r' hr' hrivals (hunfinished _ hid) (hunfinished _ hid')
  case answered =>
    rw [hrequests]
    intro x hx r id hr hkey hanswer
    rcases (mem_replaced hx).symm with rfl | hx
    · exact hanswered r id (hrequest ▸ hr) hkey hanswer
    · exact h.answered x (mem_of_others hx g) r id hr hkey hanswer

/-- A call that the search does not look at. -/
theorem Deduplicated.frame (h : Deduplicated d s (before ++ g :: after))
    (htasks : s'.orchestrator.taskInvocations = s.orchestrator.taskInvocations)
    (hunfinished : ∀ id, s'.orchestrator.isUnfinished id = true →
      s.orchestrator.isUnfinished id = true)
    (hinvocations : s'.backend.invocations = s.backend.invocations)
    (hcalls : s'.backend.calls = s.backend.calls) :
    Deduplicated d s' (before ++ g :: after) := by
  have hg : g ∈ before ++ g :: after := by simp
  refine h.step rfl htasks hunfinished hinvocations hcalls (h.read g hg) (h.listed g hg) ?_ ?_ ?_
  · intro hs r hr x hx r' hr' hxs
    exact h.alone hr hs hx hr' hxs
  · exact fun hs r hr => h.covered g hg r hr hs
  · exact h.answered g hg

/-- A call that changes no more of the book than what was read and routed. -/
theorem Deduplicated.note (h : Deduplicated d s (before ++ g :: after))
    {read : Option (InvocationId × InvocationDTO)} (unrouted : Bool)
    (hread : ∀ id invocation, read = some (id, invocation) →
      Requested d (requests (before ++ g :: after)) id invocation) :
    Deduplicated d s (before ++ { g with read := read, unrouted := unrouted } :: after) := by
  have hg : g ∈ before ++ g :: after := by simp
  refine h.step rfl rfl (fun _ hid => hid) rfl rfl hread (h.listed g hg) ?_ ?_ ?_
  · intro hs r hr x hx r' hr' hxs
    exact h.alone hr hs hx hr' hxs
  · exact fun hs r hr => h.covered g hg r hr hs
  · exact h.answered g hg

/-- **Comparing.**  What is not returned has another key. -/
theorem Deduplicated.compare (h : Deduplicated d s (before ++ g :: after))
    (hsearching : g.searching = true) {id : InvocationId} {rest : List InvocationId}
    {invocation : InvocationDTO} {call : CallDTO} (hlisted : g.listed = id :: rest)
    (hread : g.read = some (id, invocation))
    (hcall : s.backend.calls.lookup invocation.callId = some call) :
    Deduplicated d s (before ++ g.compare d call.serializedArguments :: after) := by
  have hg : g ∈ before ++ g :: after := by simp
  unfold Search.compare
  split
  · rename_i r id' rest' hrequest hlisted'
    obtain ⟨rfl, rfl⟩ : id = id' ∧ rest = rest' := by simpa [hlisted] using hlisted'
    -- the arguments that were read are those of the listed invocation
    obtain ⟨r₁, hr₁, hid, hcallId⟩ := h.read g hg id invocation hread
    obtain ⟨r₂, hr₂, rfl, hcallId'⟩ := h.calls _ _ hcall
    have hargs : r₁.args = r₂.args := h.digests r₁ hr₁ r₂ hr₂ (hcallId.symm.trans hcallId')
    obtain ⟨r₃, hr₃, hid₃, htask⟩ := h.listed g hg r hrequest id (by simp [hlisted])
    obtain rfl : r₃ = r₁ := h.request_eq hr₃ hr₁ (hid₃.trans hid.symm)
    have hkey : d.registrationKey r.taskId (r₂.call d).serializedArguments = r₃.key d := by
      show d.registrationKey r.taskId r₂.args = d.registrationKey r₃.taskId r₃.args
      rw [← hargs, htask]
    rw [hkey]
    split
    · rename_i hsame
      refine h.step rfl rfl (fun _ hid => hid) rfl rfl (h.read g hg) (h.listed g hg) ?_ ?_ ?_
      · intro hs
        cases hs
      · intro hs
        cases hs
      · intro r' id' hr' hlimited hanswer
        obtain rfl : r = r' := Option.some.inj (hrequest.symm.trans hr')
        obtain rfl := Option.some.inj hanswer
        exact ⟨r₃, hr₃, hid, hlimited, htask.symm, hsame.symm⟩
    · rename_i hother
      refine h.step rfl rfl (fun _ hid => hid) rfl rfl (h.read g hg) ?_ ?_ ?_ (h.answered g hg)
      · intro r' hr' id' hid'
        exact h.listed g hg r' hr' id' (by rw [hlisted]; exact List.mem_cons_of_mem _ hid')
      · intro hs r' hr' x hx r'' hr'' hxs
        exact h.alone hr' hs hx hr'' hxs
      · intro hs r' hr' r'' hr'' hrivals hunfinished
        obtain rfl : r = r' := Option.some.inj (hrequest.symm.trans hr')
        have hmem := h.covered g hg r hrequest hsearching r'' hr'' hrivals hunfinished
        rw [hlisted] at hmem
        rcases List.mem_cons.mp hmem with hsame | hmem
        · obtain rfl : r'' = r₃ := h.request_eq hr'' hr₃ (hsame.trans hid.symm)
          exact absurd hrivals.key.symm hother
        · exact hmem
  · exact h

/-- A task that registers one invocation at a time has one key. -/
theorem registrationKey_of_task {taskId : TaskId}
    (hmode : (d.configForTask taskId).map TaskConfig.registrationConcurrency = some .task)
    (args : SerializedArguments) : d.registrationKey taskId args = some .empty := by
  obtain ⟨config, hconfig, htask⟩ := Option.map_eq_some_iff.mp hmode
  simp only [Deployment.registrationKey, hconfig, Option.bind_some, htask, concurrencyArguments]

/-- **Listing.**  The list has every unfinished invocation of the task. -/
theorem Deduplicated.list (h : Deduplicated d s (before ++ g :: after))
    (hrequest : g.request = some r) (hanswer : g.answer = none) {ids : List InvocationId}
    (hids : ∀ id, id ∈ ids ↔ id ∈ (s.orchestrator.taskInvocations.lookup r.taskId).getD ∅ ∧
      s.orchestrator.isUnfinished id = true)
    (halone : ∀ x ∈ before ++ after, ∀ r', x.request = some r' → x.searching = true →
      ¬ Rivals d r r') :
    Deduplicated d s (before ++ g.list d r.taskId ids :: after) := by
  have hg : g ∈ before ++ g :: after := by simp
  have hown : ∀ r', g.request = some r' → r' = r :=
    fun r' hr' => Option.some.inj (hr'.symm.trans hrequest)
  have hsearch : Deduplicated d s
      (before ++ { g with searching := true, listed := ids } :: after) := by
    refine h.step rfl rfl (fun _ hid => hid) rfl rfl (h.read g hg) ?_ ?_ ?_ (h.answered g hg)
    · intro r' hr' id hid
      obtain rfl := hown r' hr'
      exact h.owned _ id ((hids id).mp hid).1
    · intro _ r' hr'
      obtain rfl := hown r' hr'
      exact halone
    · intro _ r' hr' r'' hr'' hrivals hunfinished
      obtain rfl := hown r' hr'
      refine (hids _).mpr ⟨?_, hunfinished⟩
      rw [hrivals.task]
      exact h.indexed r'' hr'' hunfinished
  unfold Search.list
  rw [if_neg (by simp [hanswer])]
  split
  · rename_i hmode
    split
    · exact hsearch
    · rename_i id rest
      refine h.step rfl rfl (fun _ hid => hid) rfl rfl (h.read g hg) (h.listed g hg) ?_ ?_ ?_
      · intro hs
        cases hs
      · intro hs
        cases hs
      · intro r' id' hr' hlimited hid'
        obtain rfl := hown r' hr'
        obtain rfl := Option.some.inj hid'
        obtain ⟨r₁, hr₁, hid, htask⟩ := h.owned _ id ((hids id).mp List.mem_cons_self).1
        refine ⟨r₁, hr₁, hid, hlimited, htask.symm, ?_⟩
        have hkey : ∀ x : RegistrationRequest, x.taskId = r'.taskId → x.key d = some .empty := by
          intro x hx
          rw [RegistrationRequest.key, hx]
          exact registrationKey_of_task hmode _
        rw [hkey r' rfl, hkey r₁ htask]
  · exact hsearch

theorem isUnfinished_register (o : OrchestratorState) (now : Timestamp) (id : InvocationId)
    (call : CallDTO) (runnerId : Option RunnerId) (x : InvocationId) :
    (o.registerInvocationWithId now id call runnerId).2.isUnfinished x =
      (decide (x = id) || o.isUnfinished x) := by
  have hstatus : (o.registerInvocationWithId now id call runnerId).2.statusOf x =
      if x = id then some .registered else o.statusOf x :=
    o.statusOf_of_insert id ⟨.registered, runnerId, now⟩ rfl x
  have hopen : InvocationStatus.registered.isTerminal = false := by decide
  unfold OrchestratorState.isUnfinished
  rw [hstatus]
  by_cases hx : x = id
  · simp [hx, hopen]
  · simp [hx]

theorem mem_taskInvocations_register (o : OrchestratorState) (now : Timestamp) (id : InvocationId)
    (call : CallDTO) (runnerId : Option RunnerId) (taskId : TaskId) (x : InvocationId) :
    x ∈ ((o.registerInvocationWithId now id call runnerId).2.taskInvocations.lookup taskId).getD ∅ ↔
      (taskId = call.taskId ∧ x = id) ∨ x ∈ (o.taskInvocations.lookup taskId).getD ∅ := by
  show x ∈ ((o.taskInvocations.insert call.taskId _).lookup taskId).getD ∅ ↔ _
  by_cases htask : taskId = call.taskId
  · subst htask
    rw [AList.lookup_insert]
    simp
  · rw [AList.lookup_insert_ne htask]
    simp [htask]

/-- **Registering.**  Everything unfinished with the key was compared, and no rival searches. -/
theorem Deduplicated.register (h : Deduplicated d s (before ++ g :: after))
    (hrequest : g.request = some r)
    (hsearch : (r.key d).isSome = true → g.searching = true ∧ g.listed = []) (now : Timestamp)
    (runnerId : Option RunnerId) :
    Deduplicated d { s with orchestrator := (s.orchestrator.registerInvocationWithId now
        r.invocationId (r.call d) runnerId).2 }
      (before ++ { g with searching := false, answer := some r.invocationId, unrouted := true } ::
        after) := by
  have hg : g ∈ before ++ g :: after := by simp
  have hr : r ∈ requests (before ++ g :: after) := mem_requests hg hrequest
  have hrequests : requests (before ++ { g with
      searching := false, answer := some r.invocationId, unrouted := true } :: after) =
      requests (before ++ g :: after) := requests_replace rfl
  have hnone : ∀ r' ∈ requests (before ++ g :: after), Rivals d r r' →
      s.orchestrator.isUnfinished r'.invocationId = true → False := by
    intro r' hr' hrivals hunfinished
    obtain ⟨hs, hlisted⟩ := hsearch hrivals.limited
    have hcovered := h.covered g hg r hrequest hs r' hr' hrivals hunfinished
    rw [hlisted] at hcovered
    cases hcovered
  -- an unfinished invocation is the new one, or was unfinished before
  have hunfinished : ∀ r' ∈ requests (before ++ g :: after),
      (s.orchestrator.registerInvocationWithId now r.invocationId (r.call d)
        runnerId).2.isUnfinished r'.invocationId = true →
      r' = r ∨ s.orchestrator.isUnfinished r'.invocationId = true := by
    intro r' hr' hid
    rw [isUnfinished_register, Bool.or_eq_true, decide_eq_true_eq] at hid
    rcases hid with hid | hid
    · exact .inl (h.request_eq hr' hr hid)
    · exact .inr hid
  constructor
  case distinct => rw [hrequests]; exact h.distinct
  case digests => rw [hrequests]; exact h.digests
  case known =>
    rw [hrequests]
    intro id hid
    rw [isUnfinished_register, Bool.or_eq_true, decide_eq_true_eq] at hid
    rcases hid with rfl | hid
    · exact ⟨r, hr, rfl⟩
    · exact h.known id hid
  case owned =>
    rw [hrequests]
    intro taskId id hid
    rcases (mem_taskInvocations_register _ _ _ _ _ _ _).mp hid with ⟨rfl, rfl⟩ | hid
    · exact ⟨r, hr, rfl, rfl⟩
    · exact h.owned taskId id hid
  case indexed =>
    rw [hrequests]
    intro r' hr' hid
    refine (mem_taskInvocations_register _ _ _ _ _ _ _).mpr ?_
    rcases hunfinished r' hr' hid with rfl | hid
    · exact .inl ⟨rfl, rfl⟩
    · exact .inr (h.indexed r' hr' hid)
  case invocations => rw [hrequests]; exact h.invocations
  case calls => rw [hrequests]; exact h.calls
  case read =>
    rw [hrequests]
    intro x hx
    rcases (mem_replaced hx).symm with rfl | hx
    · exact h.read g hg
    · exact h.read x (mem_of_others hx g)
  case listed =>
    rw [hrequests]
    intro x hx
    rcases (mem_replaced hx).symm with rfl | hx
    · exact h.listed g hg
    · exact h.listed x (mem_of_others hx g)
  case exclusive =>
    intro x hx y hy r₁ r₂ hr₁ hr₂ hxs hys hrivals
    rcases (mem_replaced hx).symm with rfl | hxold
    · cases hxs
    · rcases (mem_replaced hy).symm with rfl | hyold
      · cases hys
      · exact h.exclusive x (mem_of_others hxold g) y (mem_of_others hyold g) r₁ r₂ hr₁ hr₂ hxs hys hrivals
  case covered =>
    rw [hrequests]
    intro x hx r₁ hr₁ hxs r₂ hr₂ hrivals hid
    rcases (mem_replaced hx).symm with rfl | hxold
    · cases hxs
    · rcases hunfinished r₂ hr₂ hid with rfl | hid
      · exact absurd hrivals.symm
          (h.alone hrequest (hsearch hrivals.symm.limited).1 hxold hr₁ hxs)
      · exact h.covered x (mem_of_others hxold g) r₁ hr₁ hxs r₂ hr₂ hrivals hid
  case unique =>
    rw [hrequests]
    intro r₁ hr₁ r₂ hr₂ hrivals hid₁ hid₂
    rcases hunfinished r₁ hr₁ hid₁ with rfl | hold₁
    · rcases hunfinished r₂ hr₂ hid₂ with rfl | hold₂
      · rfl
      · exact (hnone r₂ hr₂ hrivals hold₂).elim
    · rcases hunfinished r₂ hr₂ hid₂ with rfl | hold₂
      · exact (hnone r₁ hr₁ hrivals.symm hold₁).elim
      · exact h.unique r₁ hr₁ r₂ hr₂ hrivals hold₁ hold₂
  case answered =>
    rw [hrequests]
    intro x hx r₁ id hr₁ hkey hanswer
    rcases (mem_replaced hx).symm with rfl | hx
    · obtain rfl : r = r₁ := Option.some.inj (hrequest.symm.trans hr₁)
      obtain rfl := Option.some.inj hanswer
      exact ⟨r, hr, rfl, .refl hkey⟩
    · exact h.answered x (mem_of_others hx g) r₁ id hr₁ hkey hanswer

/-- Storing what was registered. -/
theorem Deduplicated.upsert (h : Deduplicated d s (before ++ g :: after))
    (hrequest : g.request = some r) {invocation : InvocationDTO}
    (hid : invocation.invocationId = r.invocationId)
    (hcallId : invocation.callId = (r.call d).callId) :
    Deduplicated d { s with backend := s.backend.upsertInvocation invocation (r.call d) }
      (before ++ g :: after) := by
  have hr : r ∈ requests (before ++ g :: after) := mem_requests (by simp) hrequest
  refine ⟨h.distinct, h.digests, h.known, h.owned, h.indexed, ?_, ?_, h.read, h.listed,
    h.exclusive, h.covered, h.unique, h.answered⟩
  · intro id stored hlookup
    by_cases hnew : id = invocation.invocationId
    · subst hnew
      rw [BackendState.upsertInvocation, AList.lookup_insert] at hlookup
      obtain rfl := Option.some.inj hlookup
      exact ⟨r, hr, hid.symm, hcallId⟩
    · rw [BackendState.upsertInvocation, AList.lookup_insert_ne hnew] at hlookup
      exact h.invocations id stored hlookup
  · intro callId call hlookup
    by_cases hnew : callId = (r.call d).callId
    · subst hnew
      rw [BackendState.upsertInvocation, AList.lookup_insert] at hlookup
      obtain rfl := Option.some.inj hlookup
      exact ⟨r, hr, rfl, rfl⟩
    · rw [BackendState.upsertInvocation, AList.lookup_insert_ne hnew] at hlookup
      exact h.calls callId call hlookup

end Invariant

/-! ## Runs -/

/-- The task whose invocations a call lists. -/
def lists? : runnerPorts.Op → Option TaskId
  | .inr (.getExistingInvocations taskId _ _) => some taskId
  | _ => none

/-- The invocation that a call registers. -/
def registers? : runnerPorts.Op → Option InvocationId
  | .inl c => c.registered?
  | .inr _ => none

/-- The operation has listed, and has neither registered nor ended. -/
def MidSearch (t : Thread runnerPorts RegistrationTask) : Prop :=
  t.next? ≠ none ∧ (∃ e ∈ t.log, (lists? e.op).isSome = true) ∧
    ∀ e ∈ t.log, registers? e.op = none

/-- Only requests and workers are started.  A request has a new id, and its digest is that of
no other arguments. -/
def requestsAndWorkers (d : Deployment) : Guard runnerPorts MemRuntime RegistrationTask where
  start s task := match task with
    | .worker op => op.isWorker = true
    | .register r => ∀ t ∈ s.threads, ∀ r' ∈ t.task.request?,
        r'.invocationId ≠ r.invocationId ∧
          ((r'.call d).callId = (r.call d).callId → r'.args = r.args)
  call _ _ _ := True

/-- When a request lists, no rival is between listing and registering; what a request compares
is stored; and its task has a valid route. -/
def searchesAlone (d : Deployment) : Guard runnerPorts MemRuntime RegistrationTask where
  start _ task := ∀ r ∈ task.request?, ValidRoute d r.taskId
  call s i c := ∀ t ∈ s.threads[i]?, ∀ r ∈ t.task.request?,
    ((lists? c).isSome = true → ∀ t' ∈ s.threads, ∀ r' ∈ t'.task.request?, Rivals d r r' →
      ¬ MidSearch t') ∧
    ∀ read ∈ reads? c, s.shared.backend.has read = true

/-- The id is one that a call has listed or registered. -/
def Names : (c : runnerPorts.Op) → runnerPorts.Ret c → InvocationId → Prop
  | .inr (.getExistingInvocations _ _ _), .ok ids, id => id ∈ ids
  | .inl (.registerInvocationWithId x _ _), _, id => x = id
  | _, _, _ => False

section Books

variable {d : Deployment}

@[simp] theorem Search.next_request (c : runnerPorts.Op) (a : runnerPorts.Ret c) (g : Search) :
    (Search.next d c a g).request = g.request := by
  unfold Search.next
  split <;> try rfl
  · unfold Search.list
    split
    · rfl
    · split
      · split <;> rfl
      · rfl
  · split
    · unfold Search.compare
      split
      · split <;> rfl
      · rfl
    · rfl

theorem registering_book_request (t : Thread runnerPorts RegistrationTask) :
    ((registering d).book t).request = t.task.request? :=
  (registering d).book_field Search.request (fun _ _ _ => Search.next_request _ _ _) t

/-- What one call can do to a search. -/
structure Search.Moves (g g' : Search) (c : runnerPorts.Op) (a : runnerPorts.Ret c) : Prop where
  begins : g'.searching = true → g.searching = true ∨ (lists? c).isSome = true
  undecided : (g.searching = true → g.answer = none) → g'.searching = true → g'.answer = none
  fresh : g'.answer = none → g.answer = none ∧ registers? c = none
  listed : ∀ id ∈ g'.listed, id ∈ g.listed ∨ Names c a id
  answer : ∀ id, g'.answer = some id → g.answer = some id ∨ id ∈ g.listed ∨ Names c a id

theorem Search.Moves.of_eq {g : Search} {c : runnerPorts.Op} {a : runnerPorts.Ret c}
    (h : registers? c = none) : g.Moves g c a :=
  ⟨.inl, fun h => h, fun hg => ⟨hg, h⟩, fun _ => .inl, fun _ => .inl⟩

theorem Search.next_moves (c : runnerPorts.Op) (a : runnerPorts.Ret c) (g : Search) :
    g.Moves (Search.next d c a g) c a := by
  rcases c with c | c
  · cases c <;> first
      | exact .of_eq rfl
      | skip
    case registerInvocationWithId id call runnerId =>
      refine ⟨?_, ?_, ?_, fun _ => .inl, ?_⟩
      · intro hs
        cases hs
      · intro _ hs
        cases hs
      · intro ha
        cases ha
      · intro id' ha
        exact .inr (.inr (Option.some.inj ha))
    case getInvocation id =>
      cases a with
      | error e => exact .of_eq rfl
      | ok invocation => exact ⟨.inl, fun h => h, fun h => ⟨h, rfl⟩, fun _ => .inl, fun _ => .inl⟩
    case routeInvocationWithOptions id taskId queue priority =>
      cases a with
      | error e => exact .of_eq rfl
      | ok _ => exact ⟨.inl, fun h => h, fun h => ⟨h, rfl⟩, fun _ => .inl, fun _ => .inl⟩
    case getCall callId =>
      cases a with
      | error e => exact .of_eq rfl
      | ok call =>
          show g.Moves (if g.searching = true then g.compare d call.serializedArguments else g) _ _
          split
          · rename_i hsearching
            unfold Search.compare
            split
            · rename_i r id rest hrequest hlisted
              split
              · refine ⟨?_, ?_, ?_, fun _ => .inl, ?_⟩
                · intro hs
                  cases hs
                · intro _ hs
                  cases hs
                · intro ha
                  cases ha
                · intro id' ha
                  obtain rfl := Option.some.inj ha
                  exact .inr (.inl (by simp [hlisted]))
              · refine ⟨.inl, fun h => h, fun h => ⟨h, rfl⟩, ?_, fun _ => .inl⟩
                intro id' hid'
                exact .inl (by rw [hlisted]; exact List.mem_cons_of_mem _ hid')
            · exact .of_eq rfl
          · exact .of_eq rfl
  · cases c <;> first
      | exact .of_eq rfl
      | skip
    case getExistingInvocations taskId ccArgs statuses =>
      cases a with
      | error e => exact .of_eq rfl
      | ok ids =>
          show g.Moves (g.list d taskId ids) _ _
          unfold Search.list
          split
          · exact .of_eq rfl
          · rename_i hnone
            have hanswer : g.answer = none := by simpa using hnone
            split
            · split
              · refine ⟨fun _ => .inr rfl, fun _ _ => hanswer, fun _ => ⟨hanswer, rfl⟩, ?_,
                  fun _ => .inl⟩
                intro id hid
                cases hid
              · rename_i id rest
                refine ⟨?_, ?_, ?_, fun _ => .inl, ?_⟩
                · intro hs
                  cases hs
                · intro _ hs
                  cases hs
                · intro ha
                  cases ha
                · intro id' ha
                  obtain rfl := Option.some.inj ha
                  exact .inr (.inr List.mem_cons_self)
            · exact ⟨fun _ => .inr rfl, fun _ _ => hanswer, fun _ => ⟨hanswer, rfl⟩,
                fun _ hid => .inr hid, fun _ => .inl⟩

/-- What the log of an operation says about its search. -/
theorem search_of_log (task : RegistrationTask) (log : List (Event runnerPorts)) :
    (((registering d).read task log).searching = true →
      ((registering d).read task log).answer = none ∧
        ∃ e ∈ log, (lists? e.op).isSome = true) ∧
    (((registering d).read task log).answer = none → ∀ e ∈ log, registers? e.op = none) ∧
    (∀ id ∈ ((registering d).read task log).listed, ∃ e ∈ log, Names e.op e.ret id) ∧
    ∀ id, ((registering d).read task log).answer = some id → ∃ e ∈ log, Names e.op e.ret id := by
  induction log with
  | nil =>
      have hstart : ∀ id, ((registering d).start task).answer ≠ some id := by simp [registering]
      refine ⟨?_, by simp, by simp [registering], fun id hid => absurd hid (hstart id)⟩
      intro hs
      cases hs
  | cons e log ih =>
      obtain ⟨hsearch, hfresh, hlisted, hanswer⟩ := ih
      have hmoves := Search.next_moves (d := d) e.op e.ret ((registering d).read task log)
      rw [Monitor.read_cons]
      have hlater : ∀ id, (∃ x ∈ log, Names x.op x.ret id) →
          ∃ x ∈ e :: log, Names x.op x.ret id := by
        rintro id ⟨x, hx, hnames⟩
        exact ⟨x, List.mem_cons_of_mem _ hx, hnames⟩
      refine ⟨?_, ?_, ?_, ?_⟩
      · intro hs
        refine ⟨hmoves.undecided (fun h => (hsearch h).1) hs, ?_⟩
        rcases hmoves.begins hs with hold | hlists
        · obtain ⟨x, hx, hlists⟩ := (hsearch hold).2
          exact ⟨x, List.mem_cons_of_mem _ hx, hlists⟩
        · exact ⟨e, List.mem_cons_self, hlists⟩
      · intro hnone x hx
        obtain ⟨hold, hregisters⟩ := hmoves.fresh hnone
        rcases List.mem_cons.mp hx with rfl | hx
        · exact hregisters
        · exact hfresh hold x hx
      · intro id hid
        rcases hmoves.listed id hid with hold | hnames
        · exact hlater id (hlisted id hold)
        · exact ⟨e, List.mem_cons_self, hnames⟩
      · intro id hid
        rcases hmoves.answer id hid with hold | hold | hnames
        · exact hlater id (hanswer id hold)
        · exact hlater id (hlisted id hold)
        · exact ⟨e, List.mem_cons_self, hnames⟩

/-- An operation that searches has listed, and has neither registered nor ended. -/
theorem midSearch_of_searching {s : System runnerPorts MemRuntime RegistrationTask}
    (hobey : (registering d).AllObey Search.Settled s) {t : Thread runnerPorts RegistrationTask}
    (ht : t ∈ s.threads) (hsearching : ((registering d).book t).searching = true) :
    MidSearch t := by
  obtain ⟨hsearch, hfresh, -, -⟩ := search_of_log (d := d) t.task t.log
  obtain ⟨hanswer, hlists⟩ := hsearch hsearching
  refine ⟨?_, hlists, hfresh hanswer⟩
  intro hnext
  have hob := hobey t ht
  cases hprog : t.prog with
  | done u =>
      rw [hprog] at hob
      rw [hob.compared] at hsearching
      cases hsearching
  | call c k => simp [Thread.next?, hprog] at hnext

end Books

section Runs

variable {d : Deployment} {s : MemRuntime} {before after : List Search} {g : Search}
  {t : Thread runnerPorts RegistrationTask} {id : InvocationId}

/-- A status write finishes or keeps what is unfinished. -/
theorem isUnfinished_of_write {o o' : OrchestratorState} {current record : InvocationStatusRecord}
    {now : Timestamp} {status : InvocationStatus} {runnerId : Option RunnerId}
    (hcurrent : o.statusRecords.lookup id = some current)
    (htrans : statusRecordTransition now (some current) status runnerId = .ok record)
    (hrecords : o'.statusRecords = o.statusRecords.insert id record) {x : InvocationId}
    (hx : o'.isUnfinished x = true) : o.isUnfinished x = true := by
  unfold OrchestratorState.isUnfinished at hx ⊢
  rw [o.statusOf_of_insert id record hrecords x] at hx
  split at hx
  · rename_i hsame
    subst hsame
    obtain ⟨hcan, -, -⟩ := (statusRecordTransition_ok_iff _ _ _ _ _).mp htrans
    have hopen : current.status.isTerminal = false := by
      cases hterminal : current.status.isTerminal with
      | false => rfl
      | true =>
          rw [InvocationStatus.canTransitionTo_of_isTerminal hterminal] at hcan
          cases hcan
    simp [OrchestratorState.statusOf, hcurrent, hopen]
  · exact hx

/-- The listed invocations are the unfinished ones of the task. -/
theorem mem_getExisting_nonTerminal {o : OrchestratorState} {order : List InvocationId}
    {taskId : TaskId} :
    id ∈ o.getExistingInvocations order taskId none nonTerminalStatuses ↔
      id ∈ (o.taskInvocations.lookup taskId).getD ∅ ∧ o.isUnfinished id = true := by
  have hsome : nonTerminalStatuses.isEmpty = false := by decide
  unfold OrchestratorState.getExistingInvocations
  rw [List.mem_filter, OrchestratorState.mem_recordsWhere, decide_eq_true_eq, and_comm]
  refine and_congr_right fun _ => ?_
  unfold OrchestratorState.isUnfinished OrchestratorState.statusOf
  cases o.statusRecords.lookup id with
  | none => simp
  | some record => simp [hsome, mem_nonTerminalStatuses]

/-- A call among those of the orchestrator. -/
theorem Deduplicated.port (env : Env) (h : Deduplicated d s (before ++ g :: after)) (c : PortCall)
    (hpre : (registering d).pre (.inl c) g) :
    Deduplicated d (MemRuntime.exec env c s).2
      (before ++ Search.next d (.inl c) (MemRuntime.exec env c s).1 g :: after) := by
  have hg : g ∈ before ++ g :: after := by simp
  cases c <;> first
    | exact h.frame rfl (fun _ hid => hid) rfl rfl
    | skip
  case registerInvocationWithId id call runnerId =>
    obtain ⟨r, hrequest, rfl, rfl, hsearch⟩ := hpre
    exact h.register hrequest hsearch env.clock runnerId
  case upsertInvocation invocation call =>
    obtain ⟨r, hrequest, hid, hcallId, rfl⟩ := hpre
    exact h.upsert hrequest hid hcallId
  case setInvocationStatus id status runnerId =>
    obtain ⟨current, record, ccIndex, ccReverse, hcurrent, htrans, heq⟩ | ⟨_, _, -, -, heq⟩ |
      ⟨-, heq⟩ := s.orchestrator.setInvocationStatus_cases env.clock id status runnerId
    · simp only [MemRuntime.exec, heq]
      exact h.frame rfl (fun _ hx => isUnfinished_of_write hcurrent htrans rfl hx) rfl rfl
    · simp only [MemRuntime.exec, heq]
      exact h
    · simp only [MemRuntime.exec, heq]
      exact h
  case tryAcquireConcurrencySlot id taskId config ccArgs =>
    obtain ⟨ccIndex, ccReverse, heq⟩ :=
      s.orchestrator.tryAcquireConcurrencySlot_eq id taskId config ccArgs
    simp only [MemRuntime.exec, heq]
    exact h.frame rfl (fun _ hid => hid) rfl rfl
  case removeFromConcurrencyIndex id =>
    obtain ⟨ccIndex, ccReverse, heq⟩ := s.orchestrator.removeFromConcurrencyIndex_eq id
    simp only [MemRuntime.exec, heq]
    exact h.frame rfl (fun _ hid => hid) rfl rfl
  case routeInvocationWithOptions id taskId queue priority =>
    have hframe : Deduplicated d
        (MemRuntime.exec env (.routeInvocationWithOptions id taskId queue priority) s).2
        (before ++ g :: after) := h.frame rfl (fun _ hid => hid) rfl rfl
    cases (MemRuntime.exec env (.routeInvocationWithOptions id taskId queue priority) s).1 with
    | error e => exact hframe
    | ok _ => exact hframe.note false (h.read g hg)
  case getInvocation id =>
    simp only [MemRuntime.exec, BackendState.getInvocation]
    cases hlookup : s.backend.invocations.lookup id with
    | none => exact h
    | some invocation =>
        refine h.note g.unrouted ?_
        intro id' invocation' hread
        cases hread
        exact h.invocations id invocation hlookup
  case getCall callId =>
    simp only [MemRuntime.exec, BackendState.getCall]
    cases hlookup : s.backend.calls.lookup callId with
    | none => exact h
    | some call =>
        show Deduplicated d s (before ++
          (if g.searching = true then g.compare d call.serializedArguments else g) :: after)
        split
        · rename_i hsearching
          obtain ⟨id, rest, invocation, hlisted, hread, rfl⟩ := hpre hsearching
          exact h.compare hsearching hlisted hread hlookup
        · exact h

/-- What a request asks for, it gets. -/
theorem registering_resp {s : System runnerPorts MemRuntime RegistrationTask} {i : Nat} (env : Env)
    (ht : s.threads[i]? = some t) (c : runnerPorts.Op) (hallowed : (searchesAlone d).call s i c)
    (hpre : (registering d).pre c ((registering d).book t)) :
    (registering d).resp c ((registering d).book t) (MemRuntime.execRunner env c s.shared).1 := by
  refine ⟨MemRuntime.execRunner_truthful env c s.shared, ?_⟩
  intro hrequest
  have hstored : ∀ read ∈ reads? c, s.shared.backend.has read = true := by
    rw [registering_book_request] at hrequest
    obtain ⟨r, hr⟩ := Option.isSome_iff_exists.mp hrequest
    exact (hallowed t ht r hr).2
  rcases c with c | c
  · cases c <;> first | trivial | skip
    case getInvocation id =>
      obtain ⟨invocation, hlookup⟩ := Option.isSome_iff_exists.mp (hstored _ rfl)
      simp [MemRuntime.execRunner, MemRuntime.exec, BackendState.getInvocation, hlookup, Granted]
    case getCall callId =>
      obtain ⟨call, hlookup⟩ := Option.isSome_iff_exists.mp (hstored _ rfl)
      simp [MemRuntime.execRunner, MemRuntime.exec, BackendState.getCall, hlookup, Granted]
    case routeInvocationWithOptions id taskId queue priority =>
      have hvalid : validateRouting queue priority = .ok () := hpre hrequest
      simp [MemRuntime.execRunner, MemRuntime.exec, MemBroker.routeInvocationWithOptions, hvalid,
        Granted]
  · cases c <;> trivial

/-- **One call keeps the keys apart.** -/
theorem Deduplicated.call {init s : System runnerPorts MemRuntime RegistrationTask} {i : Nat}
    (env : Env) {c : runnerPorts.Op}
    (hturn : (registering d).Turn (registrationMachine d)
      ((requestsAndWorkers d).and (searchesAlone d)) init Search.Settled s i t c before after)
    (h : Deduplicated d s.shared (before ++ (registering d).book t :: after)) :
    (registering d).resp c ((registering d).book t) (MemRuntime.execRunner env c s.shared).1 ∧
      Deduplicated d (MemRuntime.execRunner env c s.shared).2
        (before ++ (registering d).next c (MemRuntime.execRunner env c s.shared).1
          ((registering d).book t) :: after) := by
  have hallowed := hturn.allowed.2
  refine ⟨registering_resp env hturn.thread c hallowed hturn.permitted, ?_⟩
  rcases c with c | c
  · exact h.port env c hturn.permitted
  · cases c <;> first
      | exact h.frame rfl (fun _ hid => hid) rfl rfl
      | skip
    case indexForConcurrencyControl id taskId ccArgs =>
      obtain ⟨ccIndex, ccReverse, heq⟩ :=
        s.shared.orchestrator.indexForConcurrencyControl_eq id taskId ccArgs
      simp only [MemRuntime.execRunner, heq]
      exact h.frame rfl (fun _ hid => hid) rfl rfl
    case getExistingInvocations taskId ccArgs statuses =>
      obtain ⟨r, hrequest, rfl, rfl, rfl, hanswer, -⟩ := hturn.permitted
      refine h.list hrequest hanswer (fun id => mem_getExisting_nonTerminal) ?_
      -- whoever else searches is in the middle of it, so it is no rival
      intro x hx r' hr' hsearching hrivals
      obtain ⟨j, t', -, ht', rfl⟩ := hturn.others x hx
      have hmem : t' ∈ s.threads := List.mem_of_getElem? ht'
      have hown : r ∈ t.task.request? := by
        rw [← registering_book_request (d := d)]
        exact hrequest
      have hother : r' ∈ t'.task.request? := by
        rw [← registering_book_request (d := d)]
        exact hr'
      exact (hallowed t hturn.thread r hown).1 rfl t' hmem r' hother hrivals
        (midSearch_of_searching hturn.obey hmem hsearching)

/-- The requests among the books are those of the operations. -/
theorem mem_requests_books {s : System runnerPorts MemRuntime RegistrationTask}
    {r : RegistrationRequest} :
    r ∈ requests (s.books (registering d).toMonitor) ↔ ∃ t ∈ s.threads, t.task = .register r := by
  have htask : ∀ task : RegistrationTask, task.request? = some r ↔ task = .register r := by
    intro task
    cases task <;> simp [RegistrationTask.request?]
  unfold requests System.books
  rw [List.mem_filterMap]
  constructor
  · rintro ⟨g, hg, hrequest⟩
    obtain ⟨t, ht, rfl⟩ := List.mem_map.mp hg
    rw [registering_book_request] at hrequest
    exact ⟨t, ht, (htask _).mp hrequest⟩
  · rintro ⟨t, ht, hregister⟩
    refine ⟨_, List.mem_map_of_mem ht, ?_⟩
    rw [registering_book_request]
    exact (htask _).mpr hregister

/-- Starting a request with a new id. -/
theorem Deduplicated.start {books : List Search} (h : Deduplicated d s books)
    (task : RegistrationTask) (hnew : ∀ r ∈ task.request?, ∀ r' ∈ requests books,
      r'.invocationId ≠ r.invocationId ∧ ((r'.call d).callId = (r.call d).callId → r'.args = r.args)) :
    Deduplicated d s (books ++ [(registering d).start task]) := by
  have hmem : ∀ x ∈ books ++ [(registering d).start task],
      x ∈ books ∨ x = (registering d).start task := by
    intro x hx
    simpa using hx
  have hrequests : requests (books ++ [(registering d).start task]) =
      requests books ++ task.request?.toList := by
    unfold requests
    rw [List.filterMap_append]
    cases htask : task.request? with
    | none => simp [registering, htask]
    | some r => simp [registering, htask]
  have hsub : ∀ r ∈ requests books, r ∈ requests (books ++ [(registering d).start task]) := by
    intro r hr
    rw [hrequests]
    exact List.mem_append_left _ hr
  have hcases : ∀ r ∈ requests (books ++ [(registering d).start task]),
      r ∈ requests books ∨ task.request? = some r := by
    intro r hr
    rw [hrequests] at hr
    simpa using hr
  -- a new request has no invocation yet
  have hold : ∀ r ∈ requests (books ++ [(registering d).start task]),
      s.orchestrator.isUnfinished r.invocationId = true → r ∈ requests books := by
    intro r hr hid
    rcases hcases r hr with hr | hr
    · exact hr
    · obtain ⟨r', hr', heq⟩ := h.known _ hid
      exact absurd heq (hnew r hr r' hr').1
  constructor
  case distinct =>
    rw [hrequests, List.map_append, List.nodup_append]
    refine ⟨h.distinct, ?_, ?_⟩
    · cases task.request? with
      | none => simp
      | some r => simp
    · intro id hid id' hid'
      obtain ⟨r', hr', rfl⟩ := List.mem_map.mp hid
      obtain ⟨r, hr, rfl⟩ := List.mem_map.mp hid'
      exact (hnew r (by simpa using hr) r' hr').1
  case digests =>
    intro r hr r' hr' hcallId
    rcases hcases r hr with hr | hr
    · rcases hcases r' hr' with hr' | hr'
      · exact h.digests r hr r' hr' hcallId
      · exact (hnew r' hr' r hr).2 hcallId
    · rcases hcases r' hr' with hr' | hr'
      · exact ((hnew r hr r' hr').2 hcallId.symm).symm
      · rw [hr] at hr'
        rw [Option.some.inj hr']
  case known =>
    intro id hid
    obtain ⟨r, hr, heq⟩ := h.known id hid
    exact ⟨r, hsub r hr, heq⟩
  case owned =>
    intro taskId id hid
    obtain ⟨r, hr, heq⟩ := h.owned taskId id hid
    exact ⟨r, hsub r hr, heq⟩
  case indexed =>
    intro r hr hid
    exact h.indexed r (hold r hr hid) hid
  case invocations =>
    intro id invocation hlookup
    obtain ⟨r, hr, heq⟩ := h.invocations id invocation hlookup
    exact ⟨r, hsub r hr, heq⟩
  case calls =>
    intro callId call hlookup
    obtain ⟨r, hr, heq⟩ := h.calls callId call hlookup
    exact ⟨r, hsub r hr, heq⟩
  case read =>
    intro x hx id invocation hread
    rcases hmem x hx with hx | rfl
    · obtain ⟨r, hr, heq⟩ := h.read x hx id invocation hread
      exact ⟨r, hsub r hr, heq⟩
    · cases hread
  case listed =>
    intro x hx r hr id hid
    rcases hmem x hx with hx | rfl
    · obtain ⟨r', hr', heq⟩ := h.listed x hx r hr id hid
      exact ⟨r', hsub r' hr', heq⟩
    · cases hid
  case exclusive =>
    intro x hx y hy r r' hr hr' hxs hys hrivals
    rcases hmem x hx with hx | rfl
    · rcases hmem y hy with hy | rfl
      · exact h.exclusive x hx y hy r r' hr hr' hxs hys hrivals
      · cases hys
    · cases hxs
  case covered =>
    intro x hx r hr hxs r' hr' hrivals hid
    rcases hmem x hx with hx | rfl
    · exact h.covered x hx r hr hxs r' (hold r' hr' hid) hrivals hid
    · cases hxs
  case unique =>
    intro r hr r' hr' hrivals hid hid'
    exact h.unique r (hold r hr hid) r' (hold r' hr' hid') hrivals hid hid'
  case answered =>
    intro x hx r id hr hkey hanswer
    rcases hmem x hx with hx | rfl
    · obtain ⟨r', hr', heq⟩ := h.answered x hx r id hr hkey hanswer
      exact ⟨r', hsub r' hr', heq⟩
    · cases hanswer

theorem deduplicated_upheld (hd : d.publication = false) :
    (registering d).Upheld Search.Settled (Deduplicated d) (registrationMachine d)
      ((requestsAndWorkers d).and (searchesAlone d)) ⟨{}, []⟩ where
  program s task hstart := by
    refine program_registers hd ?_ hstart.2
    rintro op rfl
    exact hstart.1
  obey t ht := by cases ht
  logs t ht := by cases ht
  holds := by
    have hnone : ∀ id, ({} : MemRuntime).orchestrator.isUnfinished id = false := fun _ => rfl
    constructor <;> simp [System.books, requests, hnone]
  start s task hstart h := by
    refine h.start task ?_
    intro r hr r' hr'
    obtain ⟨t, ht, htask⟩ := mem_requests_books.mp hr'
    cases task with
    | worker op => cases hr
    | register request =>
        obtain rfl : request = r := Option.some.inj hr
        exact hstart.1 t ht r' (by rw [htask]; rfl)
  call _ _ env _ _ _ _ hturn h := h.call env hturn

/-- The invocation with this id was requested for a key of a task. -/
def Carries (d : Deployment) (s : System runnerPorts MemRuntime RegistrationTask)
    (id : InvocationId) (taskId : TaskId) (key : SerializedArguments) : Prop :=
  ∃ t ∈ s.threads, ∃ r, t.task = .register r ∧ r.invocationId = id ∧ r.taskId = taskId ∧
    r.key d = some key

/-- At some moment on the way from `init` to `s`, the operation at position `i` was under way
and the invocation was unfinished. -/
def UnfinishedDuring (d : Deployment) (G : Guard runnerPorts MemRuntime RegistrationTask)
    (init s : System runnerPorts MemRuntime RegistrationTask) (i : Nat) (id : InvocationId) :
    Prop :=
  ∃ s₁, Reachable (registrationMachine d) G init s₁ ∧ Reachable (registrationMachine d) G s₁ s ∧
    (∃ t₁, s₁.threads[i]? = some t₁ ∧ t₁.next? ≠ none) ∧
    s₁.shared.orchestrator.isUnfinished id = true

/-- What a request listed or registered was unfinished then. -/
theorem unfinishedDuring_of_names (hd : d.publication = false)
    {s : System runnerPorts MemRuntime RegistrationTask}
    (hreach : Reachable (registrationMachine d) ((requestsAndWorkers d).and (searchesAlone d))
      ⟨{}, []⟩ s) {i : Nat} (ht : s.threads[i]? = some t) {e : Event runnerPorts} (he : e ∈ t.log)
    (hnames : Names e.op e.ret id) :
    UnfinishedDuring d ((requestsAndWorkers d).and (searchesAlone d)) ⟨{}, []⟩ s i id := by
  obtain ⟨s₁, env, t₁, k, hreach₁, ht₁, -, hprog, hallow, hret, hrest⟩ := hreach.made rfl ht he
  have hnext : t₁.next? = some e.op := by simp [Thread.next?, hprog]
  have happly : s₁.apply (registrationMachine d) (.step i env) =
      some (s₁.afterCall (registrationMachine d) i t₁ env e.op k) := by
    simp [System.apply, ht₁, hprog]
  obtain ⟨before, after, hturn, -⟩ :=
    (deduplicated_upheld hd).turn hreach₁ ht₁ hprog (hallow t₁ ht₁ _ hnext)
  obtain ⟨c, a⟩ := e
  rcases c with c | c
  · cases c <;> first | exact hnames.elim | skip
    case registerInvocationWithId x call runnerId =>
      -- right after the registration the request is not done
      obtain rfl : x = id := hnames
      have hreach₂ := hreach₁.next hallow happly
      refine ⟨_, hreach₂, hrest, ?_, ?_⟩
      · have hi : i < s₁.threads.length := (List.getElem?_eq_some_iff.mp ht₁).1
        refine ⟨_, List.getElem?_set_self hi, ?_⟩
        intro hdone
        have hob := ((deduplicated_upheld hd).obeyed hreach₂).1 _ (List.mem_set hi _)
        cases hk : k ((registrationMachine d).exec env _ s₁.shared).1 with
        | done u =>
            rw [hk] at hob
            have hrouted := hob.routed
            cases hrouted
        | call c' k' => simp [Thread.next?, hk] at hdone
      · show (s₁.shared.orchestrator.registerInvocationWithId env.clock x call
          runnerId).2.isUnfinished x = true
        rw [isUnfinished_register]
        simp
  · cases c <;> first | exact hnames.elim | skip
    case getExistingInvocations taskId ccArgs statuses =>
      obtain ⟨r, -, rfl, rfl, rfl, -, -⟩ := hturn.permitted
      refine ⟨s₁, hreach₁, (Reachable.refl.next hallow happly).trans hrest,
        ⟨t₁, ht₁, by simp [hnext]⟩, ?_⟩
      have ha : a = .ok (s₁.shared.orchestrator.getExistingInvocations env.order r.taskId none
          nonTerminalStatuses) := hret
      subst ha
      exact (mem_getExisting_nonTerminal.mp hnames).2

/-- **Registration control.**  In every interleaving of requests and worker lifecycles in which
no request lists while a rival is between listing and registering, at most one unfinished
invocation has a key, and every request for a limited task returns an invocation with its key
that was unfinished at some moment of the request. -/
theorem registration_deduplicates (hd : d.publication = false)
    {s : System runnerPorts MemRuntime RegistrationTask}
    (hreach : Reachable (registrationMachine d) ((requestsAndWorkers d).and (searchesAlone d))
      ⟨{}, []⟩ s) :
    (∀ taskId key id id', Carries d s id taskId key → Carries d s id' taskId key →
      s.shared.orchestrator.isUnfinished id = true →
      s.shared.orchestrator.isUnfinished id' = true → id = id') ∧
    ∀ i t r key, s.threads[i]? = some t → t.task = .register r → r.key d = some key →
      t.next? = none → ∃ id,
        t.returned (submitWithRegistrationControl d r).run = some (.ok id) ∧
        Carries d s id r.taskId key ∧
        UnfinishedDuring d ((requestsAndWorkers d).and (searchesAlone d)) ⟨{}, []⟩ s i id := by
  obtain ⟨-, hinv⟩ := (deduplicated_upheld hd).obeyed hreach
  constructor
  · rintro taskId key _ _ ⟨t, ht, r, htask, rfl, rfl, hkey⟩ ⟨t', ht', r', htask', rfl, hsame, hkey'⟩
      hid hid'
    have hrivals : Rivals d r r' := ⟨by simp [hkey], hsame.symm, hkey.trans hkey'.symm⟩
    exact hinv.unique r (mem_requests_books.mpr ⟨t, ht, htask⟩) r'
      (mem_requests_books.mpr ⟨t', ht', htask'⟩) hrivals hid hid'
  · intro i t r key ht htask hkey hdone
    have hmem : t ∈ s.threads := List.mem_of_getElem? ht
    have hprogram : (registrationMachine d).program t.task =
        (submitWithRegistrationControl d r).run.toUnit := by
      rw [htask]
      rfl
    obtain ⟨outcome, hreturned⟩ := hreach.returned rfl hmem hprogram hdone
    have hroute : ValidRoute d r.taskId := by
      have hstarted := Reachable.started (P := fun task => ∀ r ∈ task.request?,
        ValidRoute d r.taskId) rfl (fun _ _ hstart => And.right hstart) hreach
      refine hstarted t hmem r ?_
      rw [htask]
      rfl
    have hobeys : (registering d).ObeysE (submitWithRegistrationControl d r)
        (fun id g => g.answer = some id ∧ g.Settled)
        (fun _ g => d.configForTask r.taskId = none ∧ g.Settled) ((registering d).start t.task) := by
      rw [htask]
      exact submitWithRegistrationControl_registers hd hroute
    have hpost := (deduplicated_upheld hd).outcome hreach hmem hobeys hreturned
    cases outcome with
    | error e =>
        have hnone : d.configForTask r.taskId = none := hpost.1
        simp [RegistrationRequest.key, Deployment.registrationKey, hnone] at hkey
    | ok id =>
        have hanswer : ((registering d).book t).answer = some id := hpost.1
        refine ⟨id, hreturned, ?_, ?_⟩
        · have hrequest : ((registering d).book t).request = some r := by
            rw [registering_book_request, htask]
            rfl
          obtain ⟨r', hr', hid, hrivals⟩ := hinv.answered _ (List.mem_map_of_mem hmem) r id hrequest
            (by simp [hkey]) hanswer
          obtain ⟨t', ht', htask'⟩ := mem_requests_books.mp hr'
          exact ⟨t', ht', r', htask', hid, hrivals.task.symm, hrivals.key ▸ hkey⟩
        · obtain ⟨e, he, hnames⟩ := (search_of_log t.task t.log).2.2.2 id hanswer
          exact unfinishedDuring_of_names hd hreach ht he hnames

end Runs

/-! ### Two requests for one key -/

instance (d : Deployment) (r r' : RegistrationRequest) : Decidable (Rivals d r r') :=
  decidable_of_iff ((r.key d).isSome = true ∧ r.taskId = r'.taskId ∧ r.key d = r'.key d)
    ⟨fun h => ⟨h.1, h.2.1, h.2.2⟩, fun h => ⟨h.limited, h.task, h.key⟩⟩

instance (t : Thread runnerPorts RegistrationTask) : Decidable (MidSearch t) :=
  inferInstanceAs (Decidable (_ ∧ _ ∧ _))

instance (d : Deployment) (taskId : TaskId) : Decidable (ValidRoute d taskId) :=
  inferInstanceAs (Decidable (∀ config ∈ d.configForTask taskId, _))

instance (d : Deployment) (s : System runnerPorts MemRuntime RegistrationTask)
    (task : RegistrationTask) : Decidable ((requestsAndWorkers d).start s task) :=
  match task with
  | .worker op => inferInstanceAs (Decidable (op.isWorker = true))
  | .register r => inferInstanceAs (Decidable (∀ t ∈ s.threads, ∀ r' ∈ t.task.request?,
      r'.invocationId ≠ r.invocationId ∧ _))

instance (d : Deployment) (s : System runnerPorts MemRuntime RegistrationTask) (i : Nat)
    (c : runnerPorts.Op) : Decidable ((requestsAndWorkers d).call s i c) :=
  inferInstanceAs (Decidable True)

instance (d : Deployment) (s : System runnerPorts MemRuntime RegistrationTask)
    (task : RegistrationTask) : Decidable ((searchesAlone d).start s task) :=
  inferInstanceAs (Decidable (∀ r ∈ task.request?, ValidRoute d r.taskId))

instance (d : Deployment) (s : System runnerPorts MemRuntime RegistrationTask) (i : Nat)
    (c : runnerPorts.Op) : Decidable ((searchesAlone d).call s i c) :=
  inferInstanceAs (Decidable (∀ t ∈ s.threads[i]?, ∀ r ∈ t.task.request?,
    ((lists? c).isSome = true → ∀ t' ∈ s.threads, ∀ r' ∈ t'.task.request?, Rivals d r r' →
      ¬ MidSearch t') ∧ ∀ read ∈ reads? c, s.shared.backend.has read = true))

/-- One task that registers one invocation for each list of arguments. -/
def argumentDeployment : Deployment where
  catalog :=
    { registry := fun taskId =>
        if taskId = serialTask then some { registrationConcurrency := .argument } else none }
  sha256Hex _ := ""
  triggerRunInvocationId _ := ⟨"planned"⟩

/-- Submit the task without arguments. -/
def requestSerial (id : String) : RegistrationTask :=
  .register { taskId := serialTask, args := .empty, invocationId := ⟨id⟩, callerRunnerId := ⟨"client"⟩ }

/-- One request after the other: the second returns the invocation of the first. -/
theorem registration_deduplicates_sequential :
    ∃ s t, Reachable (registrationMachine argumentDeployment)
        ((requestsAndWorkers argumentDeployment).and (searchesAlone argumentDeployment))
        ⟨{}, []⟩ s ∧
      s.threads[1]? = some t ∧ t.task = requestSerial "b" ∧ t.next? = none ∧
      ∃ id, Carries argumentDeployment s id serialTask .empty ∧
        UnfinishedDuring argumentDeployment
          ((requestsAndWorkers argumentDeployment).and (searchesAlone argumentDeployment))
          ⟨{}, []⟩ s 1 id := by
  obtain ⟨s, hreach, hsecond⟩ := Reachable.exists_of_run (registrationMachine argumentDeployment)
    ((requestsAndWorkers argumentDeployment).and (searchesAlone argumentDeployment)) ⟨{}, []⟩
    (.start (requestSerial "a") :: Label.steps 0 7 idleEnv ++
      .start (requestSerial "b") :: Label.steps 1 3 idleEnv)
    (fun s => (s.threads[1]?).any fun t =>
      decide (t.task = requestSerial "b") && decide (t.next? = none))
    (by decide +kernel) (by decide +kernel)
  obtain ⟨t, ht, hthread⟩ := (Option.any_eq_true _ _).mp hsecond
  obtain ⟨htask, hdone⟩ := by simpa using hthread
  obtain ⟨id, -, hcarries, hduring⟩ :=
    (registration_deduplicates rfl hreach).2 1 t _ .empty ht htask rfl hdone
  exact ⟨s, t, hreach, ht, htask, hdone, id, hcarries, hduring⟩

/-- Two requests list before either registers: their key has two unfinished invocations. -/
theorem overlapping_requests_register_twice :
    ∃ s, Reachable (registrationMachine argumentDeployment)
        (requestsAndWorkers argumentDeployment) ⟨{}, []⟩ s ∧
      Carries argumentDeployment s ⟨"a"⟩ serialTask .empty ∧
      Carries argumentDeployment s ⟨"b"⟩ serialTask .empty ∧
      s.shared.orchestrator.isUnfinished ⟨"a"⟩ = true ∧
      s.shared.orchestrator.isUnfinished ⟨"b"⟩ = true := by
  obtain ⟨s, hreach, htasks, ha, hb⟩ := Reachable.exists_of_run
    (registrationMachine argumentDeployment) (requestsAndWorkers argumentDeployment) ⟨{}, []⟩
    (.start (requestSerial "a") :: .start (requestSerial "b") :: Label.steps 0 1 idleEnv ++
      Label.steps 1 1 idleEnv ++ Label.steps 0 6 idleEnv ++ Label.steps 1 6 idleEnv)
    (fun s => s.threads.map Thread.task = [requestSerial "a", requestSerial "b"] ∧
      s.shared.orchestrator.isUnfinished ⟨"a"⟩ = true ∧
      s.shared.orchestrator.isUnfinished ⟨"b"⟩ = true)
    (by decide +kernel) (by decide +kernel)
  have hcarries : ∀ id, requestSerial id ∈ s.threads.map Thread.task →
      Carries argumentDeployment s ⟨id⟩ serialTask .empty := by
    intro id hid
    obtain ⟨t, ht, htask⟩ := List.mem_map.mp hid
    exact ⟨t, ht, _, htask, rfl, rfl, rfl⟩
  refine ⟨s, hreach, hcarries "a" ?_, hcarries "b" ?_, ha, hb⟩
  · simp [htasks]
  · simp [htasks]

end Rustvello.Mem
