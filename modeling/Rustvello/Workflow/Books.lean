import Rustvello.Workflow.Executor

/-!
# The book of a workflow execution

What an execution knows between its calls: the values it has got so far, operation by
operation, the base time it works with, and the key it last found empty.  It asks for number
`n + 1` of an operation only when it has number `n`, and stores only what it has just found
missing.

* `replay` — the discipline, for one workflow; `first_obeys` — every execution keeps to it;
* `Returned` — the value that the `n`-th call of an operation returned to an execution that
  may have been stopped later; `Returned.text` — it is read from the text in the book.
-/

namespace Rustvello.Workflow

open Concurrency Proto Rustvello.Core DeterministicExecutor

/-! ## The book of an execution -/

/-- The values an execution has got, oldest first, the base time and the total it read
last, and the key it last found empty. -/
structure Progress where
  workflow : InvocationId
  values : Operation → List String
  base : Option Timestamp
  total : Operation → Nat
  missing : Option DataKey

namespace Progress

variable (lib : Library)

/-- One more value of an operation. -/
def gain (book : Progress) (operation : Operation) (text : String) : Progress :=
  { book with
    values := Function.update book.values operation (book.values operation ++ [text])
    missing := none }

/-- What an answer tells. -/
def noteAnswer (book : Progress) : DataKey → Option String → Progress
  | .value operation _, some text => book.gain operation text
  | .value operation n, none => { book with missing := some (.value operation n) }
  | .baseTime, some text => { book with base := lib.parseRfc3339 text, missing := none }
  | .baseTime, none => { book with missing := some .baseTime }
  | .counter operation, answer =>
      { book with
        total := Function.update book.total operation ((answer.bind parseU64).getD 0)
        missing := none }

/-- What was stored. -/
def noteStore (book : Progress) : DataKey → String → Progress
  | .value operation _, text => book.gain operation text
  | .baseTime, text => { book with base := lib.parseRfc3339 text, missing := none }
  | .counter _, _ => { book with missing := none }

end Progress

/-- The text that an execution generates for number `n` of an operation. -/
def Generates (lib : Library) (book : Progress) (n : Nat) (text : String) : Operation → Prop
  | .random => text = generateRandom lib book.workflow n
  | .time => ∃ b, book.base = some b ∧ text = generateTime lib b n
  | .uuid => text = generateUuid lib book.workflow n

/-- What a text stored for the workflow under a key looks like. -/
def Fits (lib : Library) (workflow : InvocationId) : DataKey → String → Prop
  | .value .random n, text => text = generateRandom lib workflow n
  | .value .uuid n, text => text = generateUuid lib workflow n
  | .value .time _, text => ∃ t, text = lib.toRfc3339 t
  | .baseTime, text => ∃ t, text = lib.toRfc3339 t
  | .counter _, _ => True

/-- An execution asks for the next number of an operation, stores only what it has just
found missing, and stores what it generates.  The last part is about executions of
`workflow`; about others only that they keep to their own data. -/
def replay (lib : Library) (workflow : InvocationId) :
    Discipline dataCalls Execution Progress where
  start execution := ⟨execution.workflow, fun _ => [], none, fun _ => 0, none⟩
  next
    | .getWorkflowData _ key, answer, book => book.noteAnswer lib key answer
    | .setWorkflowData _ key text, _, book => book.noteStore lib key text
    | .utcNow, _, book => book
  pre
    | .getWorkflowData id key, book => id = book.workflow ∧
        ∀ operation n, key = .value operation n → n = (book.values operation).length + 1
    | .setWorkflowData id (.value operation n) text, book => id = book.workflow ∧
        n = (book.values operation).length + 1 ∧ book.missing = some (.value operation n) ∧
        (id = workflow → Generates lib book n text operation)
    | .setWorkflowData id (.counter operation) text, book => id = book.workflow ∧
        text = toString (max (book.total operation) (book.values operation).length)
    | .setWorkflowData id .baseTime text, book => id = book.workflow ∧
        book.missing = some .baseTime ∧ ∃ t, text = lib.toRfc3339 t
    | .utcNow, _ => True
  resp
    | .getWorkflowData id key, _, answer => id = workflow →
        ∀ text ∈ answer, Fits lib workflow key text
    | .setWorkflowData _ _ _, _, _ => True
    | .utcNow, _, _ => True

section Programs

variable {lib : Library} {workflow : InvocationId} {executor : DeterministicExecutor}
  {book : Progress}

/-- The counters of an executor are the numbers of values it has got. -/
def InStep (executor : DeterministicExecutor) (book : Progress) : Prop :=
  executor.workflowId = book.workflow ∧
    ∀ operation, executor.operationCounters operation = (book.values operation).length

/-- What is known after an operation that got `text`: the book has it, at the end. -/
structure Gained (lib : Library) (workflow : InvocationId) (before : Progress)
    (operation : Operation) (text : String) (executor : DeterministicExecutor)
    (after : Progress) : Prop where
  inStep : InStep executor after
  workflow_eq : after.workflow = before.workflow
  values_eq : after.values =
    Function.update before.values operation (before.values operation ++ [text])
  readable : before.workflow = workflow → operation = .time → ∃ t, text = lib.toRfc3339 t

theorem InStep.gain {book after : Progress} {operation : Operation} {text : String}
    (h : InStep executor book) (hworkflow : after.workflow = book.workflow)
    (hvalues : after.values =
      Function.update book.values operation (book.values operation ++ [text])) :
    InStep (executor.getNextSequence operation).2 after := by
  refine ⟨h.1.trans hworkflow.symm, fun operation' => ?_⟩
  rw [hvalues]
  by_cases heq : operation' = operation
  · subst heq
    simp [getNextSequence, h.2]
  · simp [getNextSequence, heq, h.2]

/-- A text that fits `time` reads back; so does one that an execution generates. -/
theorem Generates.readable {n : Nat} {text : String}
    (h : Generates lib book n text .time) : ∃ t, text = lib.toRfc3339 t := by
  obtain ⟨b, -, rfl⟩ := h
  exact ⟨_, rfl⟩

theorem deterministicOperation_obeys (hstep : InStep executor book) (operation : Operation)
    (generator : Unit → String)
    (hgenerator : book.workflow = workflow →
      ∀ missing, Generates lib { book with missing := missing }
        ((book.values operation).length + 1) (generator ()) operation) :
    (replay lib workflow).Obeys (executor.deterministicOperation operation generator)
      (fun result after => Gained lib workflow book operation result.1 result.2 after) book := by
  have hsequence : executor.operationCounters operation + 1 =
      (book.values operation).length + 1 := by
    rw [hstep.2]
  -- is the value there?
  refine ⟨⟨hstep.1, ?_⟩, fun answer hanswer => ?_⟩
  · intro operation' n hkey
    obtain ⟨rfl, rfl⟩ := DataKey.value.inj hkey
    exact hsequence
  · cases answer with
    | some text =>
        have hfits := fun hworkflow => hanswer hworkflow text rfl
        refine ⟨hstep.gain rfl rfl, rfl, rfl, fun hworkflow htime => ?_⟩
        subst htime
        exact hfits (hstep.1.trans hworkflow)
    | none =>
        refine ⟨⟨hstep.1, hsequence, rfl, fun hworkflow => ?_⟩, fun _ _ => ?_⟩
        · have hgenerates := hgenerator (hstep.1.symm.trans hworkflow)
            (some (.value operation (executor.operationCounters operation + 1)))
          rw [← hsequence] at hgenerates
          exact hgenerates
        -- the counter
        · refine ⟨⟨hstep.1, fun _ _ hkey => by cases hkey⟩, fun total _ => ?_⟩
          refine ⟨⟨hstep.1, ?_⟩, fun _ _ => ?_⟩
          · simp [replay, Progress.noteAnswer, Progress.noteStore, Progress.gain, hstep.2]
          · refine ⟨hstep.gain rfl rfl, rfl, rfl, fun hworkflow htime => ?_⟩
            subst htime
            exact (hgenerator hworkflow none).readable

/-- The book of an execution after it got a base time. -/
structure Based (workflow : InvocationId) (before : Progress) (b : Timestamp)
    (after : Progress) : Prop where
  workflow_eq : after.workflow = before.workflow
  values_eq : after.values = before.values
  base_eq : before.workflow = workflow → after.base = some b

theorem getBaseTime_obeys (hstep : InStep executor book) :
    (replay lib workflow).Obeys (executor.getBaseTime lib) (Based workflow book) book := by
  refine ⟨⟨hstep.1, fun _ _ hkey => by cases hkey⟩, fun answer hanswer => ?_⟩
  cases answer with
  | some text =>
      dsimp only [Prog.bind]
      cases hparse : lib.parseRfc3339 text with
      | some dt => exact ⟨rfl, rfl, fun _ => hparse⟩
      | none =>
          refine ⟨trivial, fun now _ => ⟨rfl, rfl, fun hworkflow => ?_⟩⟩
          -- what is stored for the workflow reads back
          obtain ⟨t, rfl⟩ := hanswer (hstep.1.trans hworkflow) text rfl
          rw [lib.parse_toRfc3339] at hparse
          cases hparse
  | none =>
      refine ⟨trivial, fun now _ => ?_⟩
      refine ⟨⟨hstep.1, rfl, now, rfl⟩, fun _ _ => ?_⟩
      exact ⟨rfl, rfl, fun _ => lib.parse_toRfc3339 now⟩

/-- How the value of a call is read from the text of an operation. -/
def Reads (lib : Library) (text : String) : WorkflowValue → Prop
  | .random value => value = (lib.parseF64 text).getD (.finite 0)
  | .time value => lib.parseRfc3339 text = some value
  | .uuid value => value = text

/-- After a call that returned `value`. -/
structure Performed (lib : Library) (workflow : InvocationId) (before : Progress)
    (operation : Operation) (value : WorkflowValue) (executor : DeterministicExecutor)
    (after : Progress) : Prop where
  operation_eq : value.operation = operation
  inStep : InStep executor after
  workflow_eq : after.workflow = before.workflow
  gained : ∃ text, after.values =
      Function.update before.values operation (before.values operation ++ [text]) ∧
    (before.workflow = workflow → Reads lib text value)

theorem random_obeys (hstep : InStep executor book) :
    (replay lib workflow).Obeys (executor.random lib)
      (fun result after =>
        Performed lib workflow book .random (.random result.1) result.2 after) book := by
  unfold DeterministicExecutor.random
  refine Discipline.Obeys.bind (deterministicOperation_obeys hstep .random _ ?_) ?_
  · intro _ _
    rw [getOperationCount, hstep.1, hstep.2]
    rfl
  · intro result after h
    exact ⟨rfl, h.inStep, h.workflow_eq, result.1, h.values_eq, fun _ => rfl⟩

theorem uuid_obeys (hstep : InStep executor book) :
    (replay lib workflow).Obeys (executor.uuid lib)
      (fun result after =>
        Performed lib workflow book .uuid (.uuid result.1) result.2 after) book := by
  unfold DeterministicExecutor.uuid
  refine Discipline.Obeys.mono (deterministicOperation_obeys hstep .uuid _ ?_) ?_
  · intro _ _
    rw [getOperationCount, hstep.1, hstep.2]
    rfl
  · intro result after h
    exact ⟨rfl, h.inStep, h.workflow_eq, result.1, h.values_eq, fun _ => rfl⟩

theorem utcNow_obeys (hstep : InStep executor book) :
    (replay lib workflow).Obeys (executor.utcNow lib)
      (fun result after =>
        Performed lib workflow book .time (.time result.1) result.2 after) book := by
  unfold DeterministicExecutor.utcNow
  refine (getBaseTime_obeys hstep).bind ?_
  intro b based hbased
  have hstep' : InStep executor based := by
    rw [InStep, hbased.workflow_eq, hbased.values_eq]
    exact hstep
  refine Discipline.Obeys.bind (deterministicOperation_obeys hstep' .time _ ?_) ?_
  · intro hworkflow _
    refine ⟨b, hbased.base_eq (hbased.workflow_eq.symm.trans hworkflow), ?_⟩
    rw [getOperationCount, hstep'.2]
  · rintro ⟨text, executor'⟩ after h
    have hvalues := h.values_eq
    rw [hbased.values_eq] at hvalues
    dsimp only
    cases hparse : lib.parseRfc3339 text with
    | some dt =>
        exact ⟨rfl, h.inStep, h.workflow_eq.trans hbased.workflow_eq, text, hvalues,
          fun _ => hparse⟩
    | none =>
        refine ⟨trivial, fun now _ => ⟨rfl, h.inStep, h.workflow_eq.trans hbased.workflow_eq, text,
          hvalues, fun hworkflow => ?_⟩⟩
        obtain ⟨t, htext⟩ := h.readable (hbased.workflow_eq.trans hworkflow) rfl
        simp only at htext
        rw [htext, lib.parse_toRfc3339] at hparse
        cases hparse

theorem perform_obeys (hstep : InStep executor book) (operation : Operation) :
    (replay lib workflow).Obeys (perform lib executor operation)
      (fun result after => Performed lib workflow book operation result.1 result.2 after)
      book := by
  cases operation with
  | random => exact (random_obeys hstep).bind fun _ _ h => h
  | time => exact (utcNow_obeys hstep).bind fun _ _ h => h
  | uuid => exact (uuid_obeys hstep).bind fun _ _ h => h

/-- The values of one operation among the results of an execution. -/
def ofOperation (operation : Operation) (results : List WorkflowValue) : List WorkflowValue :=
  results.filter fun value => value.operation = operation

/-- After calls that returned `results`: the book has a text for each of them, in order. -/
structure Executed (lib : Library) (workflow : InvocationId) (before : Progress)
    (results : List WorkflowValue) (after : Progress) : Prop where
  workflow_eq : after.workflow = before.workflow
  gained : ∀ operation, ∃ texts, after.values operation = before.values operation ++ texts ∧
    (before.workflow = workflow →
      List.Forall₂ (Reads lib) texts (ofOperation operation results))

theorem execute_obeys (hstep : InStep executor book) (calls : List Operation) :
    (replay lib workflow).Obeys (execute lib executor calls)
      (Executed lib workflow book) book := by
  induction calls generalizing executor book with
  | nil => exact ⟨rfl, fun _ => ⟨[], by simp, fun _ => .nil⟩⟩
  | cons operation rest ih =>
      unfold execute
      refine (perform_obeys hstep operation).bind ?_
      rintro ⟨value, executor'⟩ between hperformed
      refine (ih hperformed.inStep).bind ?_
      intro values after hexecuted
      refine ⟨hexecuted.workflow_eq.trans hperformed.workflow_eq, fun operation' => ?_⟩
      obtain ⟨text, hvalues, hreads⟩ := hperformed.gained
      obtain ⟨texts, hafter, hrest⟩ := hexecuted.gained operation'
      have hname := hperformed.operation_eq
      simp only at hname hreads
      rw [hvalues] at hafter
      by_cases heq : operation' = operation
      · subst heq
        refine ⟨text :: texts, ?_, fun hworkflow => ?_⟩
        · rw [hafter, Function.update_self, List.append_assoc]
          rfl
        · have hvalue : ofOperation operation' (value :: values) =
              value :: ofOperation operation' values := by
            simp [ofOperation, hname]
          rw [hvalue]
          exact .cons (hreads hworkflow) (hrest (hperformed.workflow_eq.trans hworkflow))
      · refine ⟨texts, ?_, fun hworkflow => ?_⟩
        · rw [hafter, Function.update_of_ne heq]
        · have hvalue : ofOperation operation' (value :: values) = ofOperation operation' values := by
            simp [ofOperation, hname, Ne.symm heq]
          rw [hvalue]
          exact hrest (hperformed.workflow_eq.trans hworkflow)

/-- A fresh executor, and the book of its execution. -/
theorem first_obeys (execution : Execution) (n : Nat) :
    (replay lib workflow).Obeys (execution.first lib n)
      (Executed lib workflow ((replay lib workflow).start execution))
      ((replay lib workflow).start execution) :=
  execute_obeys ⟨rfl, fun _ => rfl⟩ _

end Programs

/-! ## What an execution got

The values of a call are known from the calls that the execution has made so far; it need
not have come to its end. -/

/-- The first calls of an execution returned `results`. -/
def Delivered (lib : Library) (t : Thread dataCalls Execution) (results : List WorkflowValue) :
    Prop :=
  ∃ n log rest, t.log.reverse = log ++ rest ∧ (t.task.first lib n).outcome log = some results

/-- The `n`-th call of an operation returned `value`. -/
def Returned (lib : Library) (t : Thread dataCalls Execution) (operation : Operation) (n : Nat)
    (value : WorkflowValue) : Prop :=
  ∃ results, Delivered lib t results ∧ 1 ≤ n ∧
    (ofOperation operation results)[n - 1]? = some value

section Books

variable {lib : Library} {workflow : InvocationId}

theorem next_values_extend (c : DataCall) (r : c.Ret) (book : Progress) (operation : Operation) :
    book.values operation <+: ((replay lib workflow).next c r book).values operation := by
  have hgain : ∀ operation' text,
      book.values operation <+: (book.gain operation' text).values operation := by
    intro operation' text
    by_cases heq : operation = operation'
    · subst heq
      simp [Progress.gain]
    · simp [Progress.gain, heq]
  cases c with
  | getWorkflowData id key =>
      cases key with
      | value operation' n =>
          cases r with
          | none => exact List.prefix_rfl
          | some text => exact hgain operation' text
      | counter operation' => exact List.prefix_rfl
      | baseTime => cases r <;> exact List.prefix_rfl
  | setWorkflowData id key text =>
      cases key with
      | value operation' n => exact hgain operation' text
      | counter operation' => exact List.prefix_rfl
      | baseTime => exact List.prefix_rfl
  | utcNow => exact List.prefix_rfl

/-- Values that an execution has got stay in its book. -/
theorem after_values_extend (log : List (Event dataCalls)) (book : Progress)
    (operation : Operation) :
    book.values operation <+: ((replay lib workflow).after book log).values operation := by
  induction log generalizing book with
  | nil => exact List.prefix_rfl
  | cons e log ih =>
      exact (next_values_extend e.op e.ret book operation).trans (ih _)

theorem next_workflow (c : DataCall) (r : c.Ret) (book : Progress) :
    ((replay lib workflow).next c r book).workflow = book.workflow := by
  cases c with
  | getWorkflowData id key =>
      cases key with
      | value operation n => cases r <;> rfl
      | counter operation => rfl
      | baseTime => cases r <;> rfl
  | setWorkflowData id key text => cases key <;> rfl
  | utcNow => rfl

theorem book_workflow (t : Thread dataCalls Execution) :
    ((replay lib workflow).book t).workflow = t.task.workflow :=
  (replay lib workflow).book_field _ (fun _ _ _ => next_workflow _ _ _) t

/-- What a call returned is read from the text that the book has at its place. -/
theorem Returned.text {t : Thread dataCalls Execution} {operation : Operation} {n : Nat}
    {value : WorkflowValue} (h : Returned lib t operation n value)
    (hfollows : (replay lib workflow).Follows ((replay lib workflow).start t.task) t.log.reverse)
    (hworkflow : t.task.workflow = workflow) :
    ∃ text, (((replay lib workflow).book t).values operation)[n - 1]? = some text ∧
      Reads lib text value := by
  obtain ⟨results, ⟨m, log, rest, hlog, houtcome⟩, -, hvalue⟩ := h
  rw [hlog, Discipline.follows_append] at hfollows
  have hexecuted := (first_obeys t.task m).outcome hfollows.1 houtcome
  obtain ⟨texts, hvalues, hreads⟩ := hexecuted.gained operation
  have hreads := hreads hworkflow
  -- the texts of the first calls are the beginning of what the book has now
  have hprefix : texts <+: ((replay lib workflow).book t).values operation := by
    have hbook : (replay lib workflow).book t = (replay lib workflow).after
        ((replay lib workflow).after ((replay lib workflow).start t.task) log) rest := by
      unfold Monitor.book
      rw [Discipline.read_eq_after, hlog]
      exact List.foldl_append
    rw [hbook]
    refine List.IsPrefix.trans ?_ (after_values_extend rest _ operation)
    rw [hvalues]
    exact List.prefix_rfl
  have hlength := hreads.length_eq
  obtain ⟨hlt, hget⟩ := List.getElem?_eq_some_iff.mp hvalue
  have hlt' : n - 1 < texts.length := by
    rw [hlength]
    exact hlt
  refine ⟨texts[n - 1], ?_, ?_⟩
  · obtain ⟨more, hmore⟩ := hprefix
    rw [← hmore, List.getElem?_append_left hlt', List.getElem?_eq_getElem hlt']
  · have hpair := (List.forall₂_iff_get.mp hreads).2 (n - 1) hlt' hlt
    simp only [List.get_eq_getElem] at hpair
    rwa [hget] at hpair

end Books

end Rustvello.Workflow
