import Rustvello.Core.Ports
import Rustvello.Workflow.Replay
import Mathlib.Data.List.Nodup

/-!
# Root handles

The code of a workflow gets its executor through `WorkflowRoot::current()`, as often as it
likes.  Every handle counts its own calls, while values are stored for the whole workflow: a
second handle starts again with the first values.

* `WorkflowRoot.current` — who may have a handle;
* `RootExecution`, `runSteps` — an execution that gets handles and calls them;
* `numbers` — the sequence numbers that its calls of an operation use;
* `rooted` — the discipline: what is stored and read under a number;
* `distinct_iff_one_handle` — the values of an operation are distinct exactly if one handle
  alone is asked for them.
-/

namespace Rustvello.Workflow

open Concurrency Proto Rustvello.Core DeterministicExecutor

/-! ## Handles -/

/-- `WorkflowRoot::current`: a fresh executor for the invocation that defines a workflow. -/
def WorkflowRoot.current (ctx : Option InvocationContext) (hasBackend : Bool) :
    RustvelloResult DeterministicExecutor :=
  match ctx with
  | none => .error .workflowContextUnavailable
  | some ctx =>
      match ctx.workflow with
      | none => .error (.workflowMembershipRequired ctx.invocationId)
      | some workflow =>
          if ctx.isWorkflowDefining = false ∨ workflow.workflowId ≠ ctx.invocationId then
            .error (.workflowRootRequired ctx.invocationId workflow.workflowId)
          else if hasBackend then .ok (.new workflow.workflowId)
          else .error .workflowContextUnavailable

/-- What the code of a workflow does with handles: it gets one, or calls one that it has. -/
inductive Step where
  | current
  | call (handle : Nat) (operation : Operation)
deriving DecidableEq, Repr

/-- Only handles that the code has got are called. -/
def Owned : Nat → List Step → Prop
  | _, [] => True
  | handles, .current :: rest => Owned (handles + 1) rest
  | handles, .call handle _ :: rest => handle < handles ∧ Owned handles rest

instance decidableOwned : (handles : Nat) → (steps : List Step) → Decidable (Owned handles steps)
  | _, [] => inferInstanceAs (Decidable True)
  | handles, .current :: rest => decidableOwned (handles + 1) rest
  | handles, .call _ _ :: rest =>
      have := decidableOwned handles rest
      inferInstanceAs (Decidable (_ ∧ _))

/-- One execution of a workflow: its context makes it the root, and it calls its own handles. -/
structure RootExecution where
  context : InvocationContext
  member : context.workflow.map WorkflowIdentity.workflowId = some context.invocationId
  defining : context.isWorkflowDefining = true
  steps : List Step
  owned : Owned 0 steps
deriving DecidableEq

def RootExecution.workflow (execution : RootExecution) : InvocationId :=
  execution.context.invocationId

/-- A root gets a fresh executor whenever it asks for a handle. -/
theorem RootExecution.current_eq (execution : RootExecution) :
    WorkflowRoot.current (some execution.context) true = .ok (.new execution.workflow) := by
  obtain ⟨workflow, hworkflow, hid⟩ := Option.map_eq_some_iff.mp execution.member
  simp [WorkflowRoot.current, hworkflow, hid, execution.defining, RootExecution.workflow]

/-- The steps of an execution, over the handles that it has. -/
def runSteps (lib : Library) (ctx : InvocationContext) :
    List DeterministicExecutor → List Step → Prog dataCalls (List WorkflowValue)
  | _, [] => pure []
  | handles, .current :: rest =>
      match WorkflowRoot.current (some ctx) true with
      | .ok executor => runSteps lib ctx (handles ++ [executor]) rest
      | .error _ => runSteps lib ctx handles rest
  | handles, .call handle operation :: rest =>
      match handles[handle]? with
      | none => runSteps lib ctx handles rest
      | some executor => do
          let (value, executor) ← perform lib executor operation
          let values ← runSteps lib ctx (handles.set handle executor) rest
          pure (value :: values)

/-- The first steps of an execution. -/
def RootExecution.first (lib : Library) (execution : RootExecution) (n : Nat) :
    Prog dataCalls (List WorkflowValue) :=
  runSteps lib execution.context [] (execution.steps.take n)

/-- Any number of executions; an execution that is stopped makes no further call. -/
def rootMachine (lib : Library) : Machine dataCalls WorkflowData Timestamp RootExecution where
  exec := exec
  program execution := (execution.first lib execution.steps.length).toUnit

/-! ## Sequence numbers -/

/-- The numbers that calls of an operation use, after so many calls of each handle. -/
def numbers (operation : Operation) : (Nat → Nat) → List Step → List Nat
  | _, [] => []
  | counts, .current :: rest => numbers operation counts rest
  | counts, .call handle operation' :: rest =>
      if operation' = operation then
        (counts handle + 1) ::
          numbers operation (Function.update counts handle (counts handle + 1)) rest
      else numbers operation counts rest

/-- One handle alone is asked for values of an operation. -/
def OneHandle (operation : Operation) (steps : List Step) : Prop :=
  ∀ h h', Step.call h operation ∈ steps → Step.call h' operation ∈ steps → h = h'

variable {operation : Operation} {steps : List Step} {counts : Nat → Nat}

/-- The first call of a handle uses the number 1. -/
theorem one_mem_numbers {handle : Nat} (h : Step.call handle operation ∈ steps)
    (hcount : counts handle = 0) :
    1 ∈ numbers operation counts steps := by
  induction steps generalizing counts with
  | nil => simp at h
  | cons step rest ih =>
      rcases List.mem_cons.mp h with rfl | hlater
      · simp [numbers, hcount]
      · cases step with
        | current => exact ih hlater hcount
        | call handle' operation' =>
            unfold numbers
            by_cases hoperation : operation' = operation
            · rw [if_pos hoperation]
              by_cases hhandle : handle = handle'
              · subst hhandle
                simp [hcount]
              · have hother : Function.update counts handle' (counts handle' + 1) handle = 0 := by
                  rw [Function.update_of_ne hhandle, hcount]
                exact List.mem_cons_of_mem _ (ih hlater hother)
            · rw [if_neg hoperation]
              exact ih hlater hcount

/-- Two handles that have not been called yet would both use the number 1. -/
theorem eq_of_nodup_numbers (hnodup : (numbers operation counts steps).Nodup) {h h' : Nat}
    (hcount : counts h = 0) (hcount' : counts h' = 0) (hcall : Step.call h operation ∈ steps)
    (hcall' : Step.call h' operation ∈ steps) : h = h' := by
  induction steps generalizing counts with
  | nil => simp at hcall
  | cons step rest ih =>
      cases step with
      | current => exact ih hnodup hcount hcount' (by simpa using hcall) (by simpa using hcall')
      | call handle operation' =>
          unfold numbers at hnodup
          by_cases hoperation : operation' = operation
          · subst hoperation
            rw [if_pos rfl] at hnodup
            obtain ⟨hnew, hrest⟩ := List.nodup_cons.mp hnodup
            -- a second handle would use the number 1 again
            have honly : ∀ g, counts g = 0 → Step.call g operation' ∈ rest → counts handle = 0 →
                g = handle := by
              intro g hg hmem hzero
              by_contra hne
              have hother : Function.update counts handle (counts handle + 1) g = 0 := by
                rw [Function.update_of_ne hne, hg]
              rw [hzero] at hnew hother
              exact hnew (one_mem_numbers hmem hother)
            by_cases hzero : counts handle = 0
            · have hmine : ∀ g, counts g = 0 →
                  Step.call g operation' ∈ .call handle operation' :: rest → g = handle := by
                intro g hg hmem
                rcases List.mem_cons.mp hmem with heq | hmem
                · exact (Step.call.inj heq).1
                · exact honly g hg hmem hzero
              rw [hmine h hcount hcall, hmine h' hcount' hcall']
            · have hne : ∀ g, counts g = 0 → g ≠ handle := by
                rintro g hg rfl
                exact hzero hg
              have hstill : ∀ g, counts g = 0 →
                  Function.update counts handle (counts handle + 1) g = 0 := by
                intro g hg
                rw [Function.update_of_ne (hne g hg), hg]
              have hlater : ∀ g, counts g = 0 →
                  Step.call g operation' ∈ .call handle operation' :: rest →
                  Step.call g operation' ∈ rest := by
                intro g hg hmem
                rcases List.mem_cons.mp hmem with heq | hmem
                · exact absurd (Step.call.inj heq).1 (hne g hg)
                · exact hmem
              exact ih hrest (hstill h hcount) (hstill h' hcount') (hlater h hcount hcall)
                (hlater h' hcount' hcall')
          · rw [if_neg hoperation] at hnodup
            have hlater : ∀ g, Step.call g operation ∈ .call handle operation' :: rest →
                Step.call g operation ∈ rest := by
              intro g hmem
              rcases List.mem_cons.mp hmem with heq | hmem
              · exact absurd (Step.call.inj heq).2.symm hoperation
              · exact hmem
            exact ih hnodup hcount hcount' (hlater h hcall) (hlater h' hcall')

/-- One handle uses greater and greater numbers. -/
theorem numbers_increase {handle : Nat} (hone : ∀ h, Step.call h operation ∈ steps → h = handle)
    (counts : Nat → Nat) :
    (numbers operation counts steps).Nodup ∧
      ∀ n ∈ numbers operation counts steps, counts handle < n := by
  induction steps generalizing counts with
  | nil => simp [numbers]
  | cons step rest ih =>
      have hrest : ∀ h, Step.call h operation ∈ rest → h = handle :=
        fun h hmem => hone h (List.mem_cons_of_mem _ hmem)
      cases step with
      | current => exact ih hrest counts
      | call handle' operation' =>
          unfold numbers
          by_cases hoperation : operation' = operation
          · subst hoperation
            obtain rfl := hone handle' (by simp)
            rw [if_pos rfl]
            obtain ⟨hnodup, hgreater⟩ :=
              ih hrest (Function.update counts handle' (counts handle' + 1))
            rw [Function.update_self] at hgreater
            constructor
            · exact List.nodup_cons.mpr ⟨fun hmem => by have := hgreater _ hmem; omega, hnodup⟩
            · intro n hn
              rcases List.mem_cons.mp hn with rfl | hn
              · omega
              · have hlt := hgreater n hn
                omega
          · rw [if_neg hoperation]
            exact ih hrest counts

/-- A number counts calls that were made. -/
theorem le_of_mem_numbers {k : Nat}
    (hcounts : ∀ h, counts h ≤ k) : ∀ n ∈ numbers operation counts steps,
      1 ≤ n ∧ n ≤ k + steps.length := by
  induction steps generalizing counts k with
  | nil => simp [numbers]
  | cons step rest ih =>
      intro n hn
      rw [List.length_cons]
      cases step with
      | current =>
          have hrest := ih hcounts n hn
          omega
      | call handle operation' =>
          unfold numbers at hn
          by_cases hoperation : operation' = operation
          · rw [if_pos hoperation] at hn
            rcases List.mem_cons.mp hn with rfl | hn
            · have hcount := hcounts handle
              omega
            · have hnext : ∀ h, Function.update counts handle (counts handle + 1) h ≤ k + 1 := by
                intro h
                have hcount := hcounts h
                by_cases hh : h = handle
                · subst hh
                  rw [Function.update_self]
                  omega
                · rw [Function.update_of_ne hh]
                  omega
              have hrest := ih hnext n hn
              omega
          · rw [if_neg hoperation] at hn
            have hrest := ih hcounts n hn
            omega

/-- Numbers repeat exactly if a second handle is asked. -/
theorem nodup_numbers_iff (operation : Operation) (steps : List Step) :
    (numbers operation (fun _ => 0) steps).Nodup ↔ OneHandle operation steps := by
  constructor
  · intro hnodup h h' hcall hcall'
    exact eq_of_nodup_numbers hnodup rfl rfl hcall hcall'
  · intro hone
    by_cases hcalled : ∃ handle, Step.call handle operation ∈ steps
    · obtain ⟨handle, hcall⟩ := hcalled
      exact (numbers_increase (fun h hmem => hone h handle hmem hcall) _).1
    · have hnever : ∀ h, Step.call h operation ∈ steps → h = 0 :=
        fun h hmem => absurd ⟨h, hmem⟩ hcalled
      exact (numbers_increase hnever _).1

/-! ## The book of an execution -/

/-- The workflow of an execution, and the base time it got last. -/
structure Desk where
  workflow : InvocationId
  base : Option Timestamp

/-- What stands under a key.  Timestamps count from the base time in runs that are `timed`. -/
def Kept (lib : Library) (timed : Prop) (desk : Desk) : DataKey → String → Prop
  | .value .uuid n, text => text = generateUuid lib desk.workflow n
  | .value .time n, text => (∃ t, text = lib.toRfc3339 t) ∧
      (timed → ∃ b, desk.base = some b ∧ text = generateTime lib b n)
  | .baseTime, text => ∃ t, text = lib.toRfc3339 t
  | .value .random _, _ => True
  | .counter _, _ => True

/-- A base time that an execution has got is the one it gets again. -/
def SameBase (lib : Library) (timed : Prop) (desk : Desk) (answer : Option String) : Prop :=
  timed → ∀ b ∈ desk.base, answer = some (lib.toRfc3339 b)

/-- An execution keeps to its own data and stores under a number what belongs there.  The rest
is about the executions of `workflow`. -/
def rooted (lib : Library) (workflow : InvocationId) (timed : Prop) :
    Discipline dataCalls RootExecution Desk where
  start execution := ⟨execution.workflow, none⟩
  next
    | .getWorkflowData _ .baseTime, some text, desk => { desk with base := lib.parseRfc3339 text }
    | .setWorkflowData _ .baseTime text, _, desk => { desk with base := lib.parseRfc3339 text }
    | _, _, desk => desk
  pre
    | .getWorkflowData id key, desk => id = desk.workflow ∧
        (id = workflow → timed → ∀ n, key = .value .time n → ∃ b, desk.base = some b)
    | .setWorkflowData id key text, desk => id = desk.workflow ∧
        (id = workflow → Kept lib timed desk key text)
    | .utcNow, _ => True
  resp
    | .getWorkflowData id key, desk, answer => id = workflow →
        (∀ text ∈ answer, Kept lib timed desk key text) ∧
          (key = .baseTime → SameBase lib timed desk answer)
    | .setWorkflowData _ _ _, _, _ => True
    | .utcNow, _, _ => True

section Programs

variable {lib : Library} {workflow : InvocationId} {timed : Prop} {executor : DeterministicExecutor}
  {desk : Desk}

/-- What is known of the book after a part of an execution. -/
structure Onward (workflow : InvocationId) (timed : Prop) (before after : Desk) : Prop where
  workflow_eq : after.workflow = before.workflow
  base_eq : before.workflow = workflow → timed → ∀ b, before.base = some b → after.base = some b

theorem Onward.refl (desk : Desk) : Onward workflow timed desk desk :=
  ⟨rfl, fun _ _ _ h => h⟩

theorem Onward.trans {a b c : Desk} (h : Onward workflow timed a b)
    (h' : Onward workflow timed b c) : Onward workflow timed a c :=
  ⟨h'.workflow_eq.trans h.workflow_eq, fun hworkflow htimed base hbase =>
    h'.base_eq (h.workflow_eq.trans hworkflow) htimed base
      (h.base_eq hworkflow htimed base hbase)⟩

/-- The value that belongs to a number. -/
def ValueOf (lib : Library) (timed : Prop) (desk : Desk) (operation : Operation) (n : Nat)
    (value : WorkflowValue) : Prop :=
  match operation with
  | .random => True
  | .uuid => value = .uuid (generateUuid lib desk.workflow n)
  | .time => timed → ∃ b, desk.base = some b ∧ value = .time (b + seconds n)

theorem ValueOf.onward {before after : Desk} {operation : Operation} {n : Nat}
    {value : WorkflowValue} (h : ValueOf lib timed before operation n value)
    (hworkflow : before.workflow = workflow) (honward : Onward workflow timed before after) :
    ValueOf lib timed after operation n value := by
  cases operation with
  | random => trivial
  | uuid =>
      unfold ValueOf at h ⊢
      rw [honward.workflow_eq]
      exact h
  | time =>
      intro htimed
      obtain ⟨b, hb, hvalue⟩ := h htimed
      exact ⟨b, honward.base_eq hworkflow htimed b hb, hvalue⟩

/-- Whatever is stored under the next number, or generated for it, belongs there. -/
theorem deterministicOperation_rooted (hexecutor : executor.workflowId = desk.workflow)
    (operation : Operation) (generator : Unit → String)
    (hbase : desk.workflow = workflow → timed → operation = .time → ∃ b, desk.base = some b)
    (hgenerator : desk.workflow = workflow → Kept lib timed desk
      (.value operation (executor.operationCounters operation + 1)) (generator ())) :
    (rooted lib workflow timed).Obeys (executor.deterministicOperation operation generator)
      (fun result after => after = desk ∧
        result.2 = (executor.getNextSequence operation).2 ∧
        (desk.workflow = workflow → Kept lib timed desk
          (.value operation (executor.operationCounters operation + 1)) result.1)) desk := by
  refine ⟨⟨hexecutor, ?_⟩, fun answer hanswer => ?_⟩
  · intro hworkflow htimed n hkey
    have htime := (DataKey.value.inj hkey).1
    exact hbase (hexecutor.symm.trans hworkflow) htimed htime
  · cases answer with
    | some text =>
        refine ⟨rfl, rfl, fun hworkflow => ?_⟩
        exact (hanswer (hexecutor.trans hworkflow)).1 text rfl
    | none =>
        have hown : executor.workflowId = workflow → desk.workflow = workflow :=
          fun h => hexecutor.symm.trans h
        refine ⟨⟨hexecutor, fun h => hgenerator (hown h)⟩, fun _ _ => ?_⟩
        -- the counter
        refine ⟨⟨hexecutor, fun _ _ _ hkey => by cases hkey⟩, fun total _ => ?_⟩
        refine ⟨⟨hexecutor, fun _ => trivial⟩, fun _ _ => ?_⟩
        exact ⟨rfl, rfl, hgenerator⟩

/-- The base time of an execution stands in its book from then on. -/
theorem getBaseTime_rooted (hexecutor : executor.workflowId = desk.workflow) :
    (rooted lib workflow timed).Obeys (executor.getBaseTime lib)
      (fun b after => Onward workflow timed desk after ∧
        (desk.workflow = workflow → after.base = some b)) desk := by
  refine ⟨⟨hexecutor, fun _ _ _ hkey => by cases hkey⟩, fun answer hanswer => ?_⟩
  have hown : desk.workflow = workflow → executor.workflowId = workflow :=
    fun h => hexecutor.trans h
  cases answer with
  | some text =>
      have hsame : desk.workflow = workflow → timed → ∀ b, desk.base = some b →
          lib.parseRfc3339 text = some b := by
        intro hworkflow htimed b hb
        have htext := (hanswer (hown hworkflow)).2 rfl htimed b hb
        rw [Option.some.inj htext, lib.parse_toRfc3339]
      dsimp only [Prog.bind]
      cases hparse : lib.parseRfc3339 text with
      | some dt =>
          rw [hparse] at hsame
          refine ⟨⟨rfl, fun hworkflow htimed b hb => ?_⟩, fun _ => hparse⟩
          exact hparse.trans (hsame hworkflow htimed b hb)
      | none =>
          refine ⟨trivial, fun now _ => ⟨⟨rfl, ?_⟩, fun hworkflow => ?_⟩⟩
          · intro hworkflow htimed b hb
            exact absurd (hparse.symm.trans (hsame hworkflow htimed b hb)) (by simp)
          · obtain ⟨t, rfl⟩ := (hanswer (hown hworkflow)).1 text rfl
            rw [lib.parse_toRfc3339] at hparse
            cases hparse
  | none =>
      refine ⟨trivial, fun now _ => ?_⟩
      refine ⟨⟨hexecutor, fun _ => ⟨now, rfl⟩⟩, fun _ _ => ?_⟩
      refine ⟨⟨rfl, fun hworkflow htimed b hb => ?_⟩, fun _ => lib.parse_toRfc3339 now⟩
      -- nothing was stored, so nothing had been got before
      have hnone := (hanswer (hown hworkflow)).2 rfl htimed b hb
      cases hnone

/-- After one call of a handle. -/
structure Answered (lib : Library) (workflow : InvocationId) (timed : Prop) (before : Desk)
    (executor : DeterministicExecutor) (operation : Operation)
    (result : WorkflowValue × DeterministicExecutor) (after : Desk) : Prop where
  onward : Onward workflow timed before after
  operation_eq : result.1.operation = operation
  next_eq : result.2 = (executor.getNextSequence operation).2
  value : before.workflow = workflow →
    ValueOf lib timed after operation (executor.operationCounters operation + 1) result.1

theorem random_rooted (hexecutor : executor.workflowId = desk.workflow) :
    (rooted lib workflow timed).Obeys (executor.random lib)
      (fun result after => Answered lib workflow timed desk executor .random
        (.random result.1, result.2) after) desk := by
  unfold DeterministicExecutor.random
  refine Discipline.Obeys.bind (deterministicOperation_rooted hexecutor .random _
    (fun _ _ h => by cases h) fun _ => trivial) ?_
  rintro ⟨text, executor'⟩ after ⟨rfl, rfl, -⟩
  exact ⟨.refl _, rfl, rfl, fun _ => trivial⟩

theorem uuid_rooted (hexecutor : executor.workflowId = desk.workflow) :
    (rooted lib workflow timed).Obeys (executor.uuid lib)
      (fun result after => Answered lib workflow timed desk executor .uuid
        (.uuid result.1, result.2) after) desk := by
  unfold DeterministicExecutor.uuid
  refine Discipline.Obeys.mono (deterministicOperation_rooted hexecutor .uuid _
    (fun _ _ h => by cases h) fun _ => ?_) ?_
  · show generateUuid lib executor.workflowId _ = generateUuid lib desk.workflow _
    rw [hexecutor]
    rfl
  · rintro ⟨text, executor'⟩ after ⟨rfl, hnext, hkept⟩
    exact ⟨.refl _, rfl, hnext, fun hworkflow => congrArg WorkflowValue.uuid (hkept hworkflow)⟩

theorem utcNow_rooted (hexecutor : executor.workflowId = desk.workflow) :
    (rooted lib workflow timed).Obeys (executor.utcNow lib)
      (fun result after => Answered lib workflow timed desk executor .time
        (.time result.1, result.2) after) desk := by
  unfold DeterministicExecutor.utcNow
  refine (getBaseTime_rooted hexecutor).bind ?_
  rintro b based ⟨honward, hbase⟩
  have hown : based.workflow = workflow → desk.workflow = workflow :=
    fun h => honward.workflow_eq.symm.trans h
  refine Discipline.Obeys.bind (deterministicOperation_rooted
    (hexecutor.trans honward.workflow_eq.symm) .time _
    (fun hworkflow _ _ => ⟨b, hbase (hown hworkflow)⟩)
    fun hworkflow => ⟨⟨_, rfl⟩, fun _ => ⟨b, hbase (hown hworkflow), rfl⟩⟩) ?_
  rintro ⟨text, executor'⟩ after ⟨rfl, hnext, hkept⟩
  dsimp only
  have hworkflow_eq : desk.workflow = workflow → after.workflow = workflow :=
    fun h => honward.workflow_eq.trans h
  cases hparse : lib.parseRfc3339 text with
  | some dt =>
      refine ⟨honward, rfl, hnext, fun hworkflow htimed => ?_⟩
      obtain ⟨b', hb', rfl⟩ := (hkept (hworkflow_eq hworkflow)).2 htimed
      rw [generateTime, lib.parse_toRfc3339] at hparse
      exact ⟨b', hb', congrArg WorkflowValue.time (Option.some.inj hparse).symm⟩
  | none =>
      refine ⟨trivial, fun now _ => ⟨honward, rfl, hnext, fun hworkflow => ?_⟩⟩
      obtain ⟨t, rfl⟩ := (hkept (hworkflow_eq hworkflow)).1
      rw [lib.parse_toRfc3339] at hparse
      cases hparse

theorem perform_rooted (hexecutor : executor.workflowId = desk.workflow) (operation : Operation) :
    (rooted lib workflow timed).Obeys (perform lib executor operation)
      (Answered lib workflow timed desk executor operation) desk := by
  cases operation with
  | random => exact (random_rooted hexecutor).bind fun _ _ h => h
  | time => exact (utcNow_rooted hexecutor).bind fun _ _ h => h
  | uuid => exact (uuid_rooted hexecutor).bind fun _ _ h => h

/-! ### Many handles -/

/-- The handles of an execution count their own calls. -/
structure InHand (handles : List DeterministicExecutor) (counts : Operation → Nat → Nat)
    (workflow : InvocationId) : Prop where
  own : ∀ (h : Nat) (executor : DeterministicExecutor), handles[h]? = some executor →
    executor.workflowId = workflow
  counters : ∀ (h : Nat) (executor : DeterministicExecutor), handles[h]? = some executor →
    ∀ operation,
      executor.operationCounters operation = counts operation h
  fresh : ∀ h, handles.length ≤ h → ∀ operation, counts operation h = 0

variable {handles : List DeterministicExecutor} {counts : Operation → Nat → Nat}
  {owner : InvocationId}

/-- A new handle has counted nothing. -/
theorem InHand.current (h : InHand handles counts owner) :
    InHand (handles ++ [.new owner]) counts owner := by
  have hcases : ∀ g executor, (handles ++ [DeterministicExecutor.new owner])[g]? = some executor →
      handles[g]? = some executor ∨ g = handles.length ∧ executor = .new owner := by
    intro g executor hget
    by_cases hlt : g < handles.length
    · rw [List.getElem?_append_left hlt] at hget
      exact .inl hget
    · rw [List.getElem?_append_right (by omega)] at hget
      have hzero : g - handles.length = 0 := by
        have hbound := (List.getElem?_eq_some_iff.mp hget).1
        simpa using hbound
      rw [hzero] at hget
      exact .inr ⟨by omega, (Option.some.inj hget).symm⟩
  constructor
  · intro g executor hget
    rcases hcases g executor hget with hold | ⟨-, rfl⟩
    · exact h.own g executor hold
    · rfl
  · intro g executor hget operation
    rcases hcases g executor hget with hold | ⟨rfl, rfl⟩
    · exact h.counters g executor hold operation
    · exact (h.fresh _ le_rfl operation).symm
  · intro g hg operation
    rw [List.length_append] at hg
    exact h.fresh g (by omega) operation

/-- The counts after a call of a handle. -/
def counted (counts : Operation → Nat → Nat) (handle : Nat) (operation : Operation) :
    Operation → Nat → Nat :=
  Function.update counts operation
    (Function.update (counts operation) handle (counts operation handle + 1))

/-- A handle that was called has counted the call. -/
theorem InHand.call (h : InHand handles counts owner) {handle : Nat}
    (hget : handles[handle]? = some executor) (operation : Operation) :
    InHand (handles.set handle (executor.getNextSequence operation).2)
      (counted counts handle operation) owner := by
  have hlt : handle < handles.length := (List.getElem?_eq_some_iff.mp hget).1
  constructor
  · intro g executor' hget'
    by_cases hg : handle = g
    · subst hg
      rw [List.getElem?_set_self hlt] at hget'
      obtain rfl := Option.some.inj hget'
      exact h.own handle executor hget
    · rw [List.getElem?_set_ne hg] at hget'
      exact h.own g executor' hget'
  · intro g executor' hget' operation'
    by_cases hg : handle = g
    · subst hg
      rw [List.getElem?_set_self hlt] at hget'
      obtain rfl := Option.some.inj hget'
      have hcount := h.counters handle executor hget
      by_cases hoperation : operation' = operation
      · subst hoperation
        simp [counted, getNextSequence, hcount]
      · simp [counted, getNextSequence, hcount, hoperation]
    · rw [List.getElem?_set_ne hg] at hget'
      have hcount := h.counters g executor' hget' operation'
      by_cases hoperation : operation' = operation
      · subst hoperation
        simpa [counted, Function.update_of_ne (Ne.symm hg)] using hcount
      · simpa [counted, hoperation] using hcount
  · intro g hg operation'
    rw [List.length_set] at hg
    have hcount := h.fresh g hg operation'
    have hne : g ≠ handle := by omega
    by_cases hoperation : operation' = operation
    · subst hoperation
      simpa [counted, Function.update_of_ne hne] using hcount
    · simpa [counted, hoperation] using hcount

/-- After steps that returned `results`: for every operation, the values that belong to the
numbers of its calls. -/
structure Ran (lib : Library) (workflow : InvocationId) (timed : Prop)
    (counts : Operation → Nat → Nat) (steps : List Step) (before : Desk)
    (results : List WorkflowValue) (after : Desk) : Prop where
  onward : Onward workflow timed before after
  values : before.workflow = workflow → ∀ operation,
    List.Forall₂ (ValueOf lib timed after operation) (numbers operation (counts operation) steps)
      (ofOperation operation results)

theorem runSteps_rooted (execution : RootExecution) (hdesk : desk.workflow = execution.workflow)
    (hhandles : InHand handles counts desk.workflow) {steps : List Step}
    (howned : Owned handles.length steps) :
    (rooted lib workflow timed).Obeys (runSteps lib execution.context handles steps)
      (Ran lib workflow timed counts steps desk) desk := by
  induction steps generalizing handles counts desk with
  | nil => exact ⟨.refl _, fun _ _ => .nil⟩
  | cons step rest ih =>
      cases step with
      | current =>
          unfold runSteps
          rw [execution.current_eq, ← hdesk]
          have howned' : Owned (handles ++ [DeterministicExecutor.new desk.workflow]).length rest := by
            rw [List.length_append]
            exact howned
          exact Discipline.Obeys.mono (ih hdesk hhandles.current howned') fun _ _ h =>
            ⟨h.onward, h.values⟩
      | call handle operation =>
          obtain ⟨executor, hget⟩ : ∃ executor, handles[handle]? = some executor :=
            ⟨_, List.getElem?_eq_getElem howned.1⟩
          unfold runSteps
          rw [hget]
          refine (perform_rooted (hhandles.own handle executor hget) operation).bind ?_
          rintro ⟨value, executor'⟩ between hanswered
          have hbetween := hanswered.onward.workflow_eq
          obtain rfl : executor' = _ := hanswered.next_eq
          have hhandles' := hhandles.call hget operation
          rw [← hbetween] at hhandles'
          refine (ih (hbetween.trans hdesk) hhandles' (by simpa using howned.2)).bind ?_
          intro values after hran
          refine ⟨hanswered.onward.trans hran.onward, fun hworkflow operation' => ?_⟩
          have hrest := hran.values (hbetween.trans hworkflow) operation'
          have hname : value.operation = operation := hanswered.operation_eq
          unfold numbers
          by_cases hoperation : operation = operation'
          · subst hoperation
            have hresults : ofOperation operation (value :: values) =
                value :: ofOperation operation values := by
              simp [ofOperation, hname]
            rw [if_pos rfl, hresults]
            refine .cons ?_ ?_
            · have hvalue := hanswered.value hworkflow
              rw [hhandles.counters handle executor hget operation] at hvalue
              exact hvalue.onward (hbetween.trans hworkflow) hran.onward
            · simpa [counted] using hrest
          · have hresults : ofOperation operation' (value :: values) =
                ofOperation operation' values := by
              simp [ofOperation, hname, hoperation]
            rw [if_neg hoperation, hresults]
            simpa [counted, Function.update_of_ne (Ne.symm hoperation)] using hrest

theorem owned_take {n : Nat} {steps : List Step} (h : Owned n steps) (k : Nat) :
    Owned n (steps.take k) := by
  induction steps generalizing n k with
  | nil => simpa using h
  | cons step rest ih =>
      cases k with
      | zero => trivial
      | succ k =>
          cases step with
          | current => exact ih h k
          | call handle operation => exact ⟨h.1, ih h.2 k⟩

/-- The first steps of an execution, from an empty book. -/
theorem first_rooted (execution : RootExecution) (n : Nat) :
    (rooted lib workflow timed).Obeys (execution.first lib n)
      (Ran lib workflow timed (fun _ _ => 0) (execution.steps.take n)
        ((rooted lib workflow timed).start execution))
      ((rooted lib workflow timed).start execution) := by
  have hnone : InHand [] (fun _ _ => 0) execution.workflow :=
    ⟨fun _ _ hget => by simp at hget, fun _ _ hget => by simp at hget, fun _ _ _ => rfl⟩
  exact runSteps_rooted execution rfl hnone (owned_take execution.owned n)

end Programs

/-! ## The invariant -/

/-- The book of an execution that has got what is stored now. -/
def shelfDesk (lib : Library) (workflow : InvocationId) (data : WorkflowData) : Desk :=
  ⟨workflow, (stored data workflow .baseTime).bind lib.parseRfc3339⟩

/-- **The invariant of the executions of one workflow.**  What is stored belongs under its key,
and in timed runs every execution works with the stored base time. -/
structure Rooted (lib : Library) (workflow : InvocationId) (timed : Prop) (data : WorkflowData)
    (desks : List Desk) : Prop where
  kept : ∀ key text, stored data workflow key = some text →
    Kept lib timed (shelfDesk lib workflow data) key text
  based : timed → ∀ desk ∈ desks, desk.workflow = workflow → ∀ b, desk.base = some b →
    stored data workflow .baseTime = some (lib.toRfc3339 b)

section Steps

variable {lib : Library} {workflow : InvocationId} {timed : Prop} {data : WorkflowData}
  {desk : Desk} {key : DataKey}

/-- What belongs under a key by one book does so by another one with the same base time. -/
theorem Kept.transfer {desk desk' : Desk} {text : String} (h : Kept lib timed desk key text)
    (hworkflow : desk'.workflow = desk.workflow)
    (hbase : timed → ∀ n, key = .value .time n → ∀ b, desk.base = some b → desk'.base = some b) :
    Kept lib timed desk' key text := by
  cases key with
  | counter operation => trivial
  | baseTime => exact h
  | value operation n =>
      cases operation with
      | random => trivial
      | uuid =>
          unfold Kept at h ⊢
          rw [hworkflow]
          exact h
      | time =>
          refine ⟨h.1, fun htimed => ?_⟩
          obtain ⟨b, hb, htext⟩ := h.2 htimed
          exact ⟨b, hbase htimed n rfl b hb, htext⟩

theorem shelfDesk_base {b : Timestamp}
    (h : stored data workflow .baseTime = some (lib.toRfc3339 b)) :
    (shelfDesk lib workflow data).base = some b := by
  simp [shelfDesk, h, lib.parse_toRfc3339]

theorem rooted_next_workflow (c : DataCall) (r : c.Ret) (desk : Desk) :
    ((rooted lib workflow timed).next c r desk).workflow = desk.workflow := by
  cases c with
  | utcNow => rfl
  | getWorkflowData id key =>
      cases key with
      | value operation n => rfl
      | counter operation => rfl
      | baseTime => cases r <;> rfl
  | setWorkflowData id key text => cases key <;> rfl

/-- A lookup is answered by what belongs under the key. -/
theorem Rooted.read {desks : List Desk} (h : Rooted lib workflow timed data desks)
    (hmem : desk ∈ desks) {id : InvocationId}
    (hpre : (rooted lib workflow timed).pre (.getWorkflowData id key) desk) :
    (rooted lib workflow timed).resp (.getWorkflowData id key) desk (stored data id key) := by
  obtain ⟨rfl, hasked⟩ := hpre
  intro hworkflow
  subst hworkflow
  constructor
  · intro text htext
    refine (h.kept key text htext).transfer rfl fun htimed n hkey b hb => ?_
    -- the execution has a base time already, and it is the stored one
    obtain ⟨b', hb'⟩ := hasked rfl htimed n hkey
    rw [shelfDesk_base (h.based htimed desk hmem rfl b' hb')] at hb
    rw [hb', hb]
  · rintro rfl htimed b hb
    exact h.based htimed desk hmem rfl b hb

/-- A base time that was looked up is the stored one. -/
theorem Rooted.next_read {desks : List Desk} (h : Rooted lib workflow timed data desks)
    (hmem : desk ∈ desks) (hworkflow : desk.workflow = workflow) (key : DataKey) (htimed : timed)
    {b : Timestamp}
    (hb : ((rooted lib workflow timed).next (.getWorkflowData desk.workflow key)
      (stored data desk.workflow key) desk).base = some b) :
    stored data workflow .baseTime = some (lib.toRfc3339 b) := by
  subst hworkflow
  cases key with
  | value operation n => exact h.based htimed desk hmem rfl b hb
  | counter operation => exact h.based htimed desk hmem rfl b hb
  | baseTime =>
      cases hstored : stored data desk.workflow .baseTime with
      | none =>
          rw [hstored] at hb
          rw [← hstored]
          exact h.based htimed desk hmem rfl b hb
      | some text =>
          rw [hstored] at hb
          obtain ⟨t, rfl⟩ := h.kept .baseTime text hstored
          have hparse : lib.parseRfc3339 (lib.toRfc3339 t) = some b := hb
          rw [lib.parse_toRfc3339] at hparse
          rw [Option.some.inj hparse]

/-- A text is stored where it belongs; a base time only where there is none. -/
theorem Rooted.store {before after : List Desk}
    (h : Rooted lib workflow timed data (before ++ desk :: after))
    (hworkflow : desk.workflow = workflow) {text : String} (hkept : Kept lib timed desk key text)
    (hbase : timed → key = .baseTime → stored data workflow .baseTime = none) :
    Rooted lib workflow timed (data.insert (workflow, key.text) text)
      (before ++ (rooted lib workflow timed).next (.setWorkflowData workflow key text) () desk ::
        after) := by
  have hmem : desk ∈ before ++ desk :: after := by simp
  by_cases hkey : key = .baseTime
  · subst hkey
    obtain ⟨t, rfl⟩ := hkept
    constructor
    · intro key' text' htext'
      by_cases hkey' : key' = .baseTime
      · subst hkey'
        rw [stored_insert_self] at htext'
        exact ⟨t, (Option.some.inj htext').symm⟩
      · rw [stored_insert_of_ne (by simpa using hkey')] at htext'
        refine (h.kept key' text' htext').transfer rfl fun htimed n _ b hb => ?_
        -- no base time was stored, so no timestamp counts from one
        rw [shelfDesk, hbase htimed rfl] at hb
        cases hb
    · intro htimed
      refine forall_replace (h.based htimed) (fun other hold hother b hb => ?_) fun _ b hb => ?_
      · have hnone := hold hother b hb
        rw [hbase htimed rfl] at hnone
        cases hnone
      · have hparse : lib.parseRfc3339 (lib.toRfc3339 t) = some b := hb
        rw [lib.parse_toRfc3339] at hparse
        rw [stored_insert_self, Option.some.inj hparse]
  · have hsame : stored (data.insert (workflow, key.text) text) workflow .baseTime =
        stored data workflow .baseTime :=
      stored_insert_of_ne (by simpa using Ne.symm hkey)
    have hshelf : shelfDesk lib workflow (data.insert (workflow, key.text) text) =
        shelfDesk lib workflow data := by
      unfold shelfDesk
      rw [hsame]
    have hnext : (rooted lib workflow timed).next (.setWorkflowData workflow key text) () desk =
        desk := by
      cases key with
      | value operation n => rfl
      | counter operation => rfl
      | baseTime => exact absurd rfl hkey
    rw [hnext]
    constructor
    · intro key' text' htext'
      rw [hshelf]
      by_cases hkey' : key' = key
      · subst hkey'
        rw [stored_insert_self] at htext'
        obtain rfl := Option.some.inj htext'
        refine hkept.transfer hworkflow.symm fun htimed _ _ b hb => ?_
        exact shelfDesk_base (h.based htimed desk hmem hworkflow b hb)
      · rw [stored_insert_of_ne (by simpa using hkey')] at htext'
        exact h.kept key' text' htext'
    · rw [hsame]
      exact h.based

/-- **One call**, which does not store a base time where there is one. -/
theorem Rooted.call {before after : List Desk}
    (h : Rooted lib workflow timed data (before ++ desk :: after)) {c : DataCall}
    (hpre : (rooted lib workflow timed).pre c desk)
    (hbase : timed → ∀ text, c = .setWorkflowData workflow .baseTime text →
      stored data workflow .baseTime = none) (clock : Timestamp) :
    (rooted lib workflow timed).resp c desk (exec clock c data).1 ∧
      Rooted lib workflow timed (exec clock c data).2
        (before ++ (rooted lib workflow timed).next c (exec clock c data).1 desk :: after) := by
  have hmem : desk ∈ before ++ desk :: after := by simp
  cases c with
  | utcNow => exact ⟨trivial, h⟩
  | getWorkflowData id key =>
      refine ⟨h.read hmem hpre, h.kept, fun htimed => ?_⟩
      refine forall_replace (h.based htimed) (fun _ hold => hold) fun hworkflow b hb => ?_
      rw [rooted_next_workflow] at hworkflow
      obtain rfl : id = desk.workflow := hpre.1
      exact h.next_read hmem hworkflow key htimed hb
  | setWorkflowData id key text =>
      obtain ⟨rfl, hkept⟩ := hpre
      refine ⟨trivial, ?_⟩
      by_cases hworkflow : desk.workflow = workflow
      · subst hworkflow
        exact h.store rfl (hkept rfl) fun htimed hkey => hbase htimed text (by rw [hkey])
      · -- the data of another workflow
        have hother : ∀ key', stored (data.insert (desk.workflow, key.text) text) workflow key' =
            stored data workflow key' :=
          fun key' => stored_insert_of_ne fun heq => hworkflow (Prod.mk.inj heq).1.symm
        have hshelf : shelfDesk lib workflow (data.insert (desk.workflow, key.text) text) =
            shelfDesk lib workflow data := by
          unfold shelfDesk
          rw [hother]
        constructor
        · intro key' text' htext'
          rw [show (exec clock (.setWorkflowData desk.workflow key text) data).2 =
            data.insert (desk.workflow, key.text) text from rfl] at htext' ⊢
          rw [hother] at htext'
          rw [hshelf]
          exact h.kept key' text' htext'
        · intro htimed
          refine forall_replace (h.based htimed) (fun other hold hown b hb => ?_) fun hown => ?_
          · exact (hother _).trans (hold hown b hb)
          · rw [rooted_next_workflow] at hown
            exact absurd hown hworkflow

end Steps

/-! ## Runs -/

/-- A base time of the workflow is stored only where there is none. -/
def basedOnce (workflow : InvocationId) : Guard dataCalls WorkflowData RootExecution where
  start _ _ := True
  call s _ c := match c with
    | .setWorkflowData id .baseTime _ =>
        id = workflow → stored s.shared workflow .baseTime = none
    | _ => True

/-- A backend on which no execution has started. -/
def atRest (data : WorkflowData) : System dataCalls WorkflowData RootExecution :=
  ⟨data, []⟩

/-- The first steps of an execution returned `results`; it may have gone on, or been stopped. -/
def Obtained (lib : Library) (t : Thread dataCalls RootExecution) (n : Nat)
    (results : List WorkflowValue) : Prop :=
  ∃ log rest, t.log.reverse = log ++ rest ∧ (t.task.first lib n).outcome log = some results

section Runs

variable {lib : Library} {workflow : InvocationId} {timed : Prop}
  {G : Guard dataCalls WorkflowData RootExecution} {data : WorkflowData}

theorem rooted_upheld (hfresh : Fresh workflow data)
    (hbase : timed → ∀ s i text, G.call s i (.setWorkflowData workflow .baseTime text) →
      stored s.shared workflow .baseTime = none) :
    (rooted lib workflow timed).Upheld (fun _ => True) (Rooted lib workflow timed)
      (rootMachine lib) G (atRest data) where
  program _ execution _ :=
    Discipline.Obeys.toUnit (Discipline.Obeys.mono (first_rooted execution _) fun _ _ _ => trivial)
  obey := by
    intro t ht
    simp [atRest] at ht
  logs := by simp [atRest]
  holds := by
    constructor
    · intro key text htext
      change stored data workflow key = some text at htext
      rw [hfresh key] at htext
      cases htext
    · intro _ desk hdesk
      simp [atRest, System.books] at hdesk
  start s execution _ hinv := by
    refine ⟨hinv.kept, fun htimed desk hdesk hworkflow b hb => ?_⟩
    rcases List.mem_append.mp hdesk with hdesk | hdesk
    · exact hinv.based htimed desk hdesk hworkflow b hb
    · obtain rfl := List.mem_singleton.mp hdesk
      cases hb
  call s i clock t c before after hturn hinv := by
    refine hinv.call hturn.permitted (fun htimed text hc => ?_) clock
    have hallowed := hturn.allowed
    rw [hc] at hallowed
    exact hbase htimed s i text hallowed

/-- The values that an execution got belong to the numbers of its calls. -/
theorem Obtained.values {s : System dataCalls WorkflowData RootExecution}
    (hupheld : (rooted lib workflow timed).Upheld (fun _ => True) (Rooted lib workflow timed)
      (rootMachine lib) G (atRest data))
    (hs : Reachable (rootMachine lib) G (atRest data) s) {t : Thread dataCalls RootExecution}
    (ht : t ∈ s.threads) (hworkflow : t.task.workflow = workflow) {n : Nat}
    {results : List WorkflowValue} (h : Obtained lib t n results) (operation : Operation) :
    ∃ desk : Desk, desk.workflow = workflow ∧
      List.Forall₂ (ValueOf lib timed desk operation)
        (numbers operation (fun _ => 0) (t.task.steps.take n)) (ofOperation operation results) := by
  obtain ⟨log, rest, hlog, houtcome⟩ := h
  have hfollows := hupheld.follows hs t ht
  rw [hlog, Discipline.follows_append] at hfollows
  have hran := (first_rooted t.task n).outcome hfollows.1 houtcome
  exact ⟨_, hran.onward.workflow_eq.trans hworkflow, hran.values hworkflow operation⟩

end Runs

/-- The digests of the first seeds of a workflow differ in the bytes that a UUID keeps. -/
def SeedsApart (lib : Library) (workflow : InvocationId) (bound : Nat) : Prop :=
  ∀ m n : Nat, 1 ≤ m ∧ m ≤ bound → 1 ≤ n ∧ n ≤ bound →
    uuidBytes (lib.sha256 (workflow.raw ++ ":uuid:" ++ toString m)) =
        uuidBytes (lib.sha256 (workflow.raw ++ ":uuid:" ++ toString n)) →
      workflow.raw ++ ":uuid:" ++ toString m = workflow.raw ++ ":uuid:" ++ toString n

theorem eq_map_of_forall₂ {α β : Type} {f : α → β} {as : List α} {bs : List β}
    (h : List.Forall₂ (fun a b => b = f a) as bs) : bs = as.map f := by
  induction h with
  | nil => rfl
  | cons hb _ ih => rw [List.map_cons, hb, ih]

/-- **Values of one execution.**  Over any interleaving with other executions, the UUIDs that an
execution got are distinct exactly if one handle alone was asked for UUIDs; and the timestamps
exactly if one handle alone was asked for timestamps, as long as no execution of the workflow
stores a base time over another one.  Every handle is answered with the same values, in the
order of its own calls. -/
theorem distinct_iff_one_handle (lib : Library) (workflow : InvocationId)
    (huuidText : Function.Injective lib.uuidText) {data : WorkflowData}
    (hfresh : Fresh workflow data) :
    (∀ s, Reachable (rootMachine lib) (Guard.top _ _ _) (atRest data) s →
      ∀ t ∈ s.threads, t.task.workflow = workflow →
      SeedsApart lib workflow t.task.steps.length → ∀ n results, Obtained lib t n results →
        ((ofOperation .uuid results).Nodup ↔ OneHandle .uuid (t.task.steps.take n)) ∧
        ∃ value : Nat → WorkflowValue, ofOperation .uuid results =
          (numbers .uuid (fun _ => 0) (t.task.steps.take n)).map value) ∧
    (∀ s, Reachable (rootMachine lib) (basedOnce workflow) (atRest data) s →
      ∀ t ∈ s.threads, t.task.workflow = workflow → ∀ n results, Obtained lib t n results →
        ((ofOperation .time results).Nodup ↔ OneHandle .time (t.task.steps.take n)) ∧
        ∃ value : Nat → WorkflowValue, ofOperation .time results =
          (numbers .time (fun _ => 0) (t.task.steps.take n)).map value) := by
  constructor
  · intro s hs t ht hworkflow hapart n results hobtained
    have hupheld : (rooted lib workflow False).Upheld (fun _ => True) (Rooted lib workflow False)
        (rootMachine lib) (Guard.top _ _ _) (atRest data) := rooted_upheld hfresh fun h => h.elim
    obtain ⟨desk, hdesk, hvalues⟩ := hobtained.values hupheld hs ht hworkflow .uuid
    have hbound : ∀ m ∈ numbers .uuid (fun _ => 0) (t.task.steps.take n),
        1 ≤ m ∧ m ≤ t.task.steps.length := by
      intro m hm
      have hle := le_of_mem_numbers (k := 0) (fun _ => le_rfl) m hm
      have htake := List.length_take_le n t.task.steps
      have hmin := List.length_take_le' n t.task.steps
      omega
    have hunique : Relator.BiUnique fun m value =>
        (1 ≤ m ∧ m ≤ t.task.steps.length) ∧ ValueOf lib False desk .uuid m value := by
      constructor
      · intro m n value hm hn
        have htexts : lib.uuidText (uuidBytes (lib.sha256
              (desk.workflow.raw ++ ":uuid:" ++ toString m))) =
            lib.uuidText (uuidBytes (lib.sha256
              (desk.workflow.raw ++ ":uuid:" ++ toString n))) :=
          WorkflowValue.uuid.inj (Eq.trans (Eq.symm hm.2) hn.2)
        rw [hdesk] at htexts
        have hseeds := congrArg String.toList (hapart m n hm.1 hn.1 (huuidText htexts))
        simp only [String.toList_append, List.append_cancel_left_eq] at hseeds
        exact DataKey.toString_injective (String.toList_injective hseeds)
      · intro m value value' hm hm'
        exact Eq.trans hm.2 (Eq.symm hm'.2)
    rw [← nodup_numbers_iff]
    exact ⟨(List.rel_nodup hunique ((List.forall₂_and_left _ _).mpr ⟨hbound, hvalues⟩)).symm,
      _, eq_map_of_forall₂ (hvalues.imp fun _ _ h => h)⟩
  · intro s hs t ht hworkflow n results hobtained
    have hupheld : (rooted lib workflow True).Upheld (fun _ => True) (Rooted lib workflow True)
        (rootMachine lib) (basedOnce workflow) (atRest data) :=
      rooted_upheld hfresh fun _ s i text hallowed => hallowed rfl
    obtain ⟨desk, hdesk, hvalues⟩ := hobtained.values hupheld hs ht hworkflow .time
    have hunique : Relator.BiUnique (ValueOf lib True desk .time) := by
      constructor
      · intro m n value hm hn
        obtain ⟨b, hb, hvalue⟩ := hm trivial
        obtain ⟨b', hb', hvalue'⟩ := hn trivial
        obtain rfl : b = b' := Option.some.inj (hb.symm.trans hb')
        have htimes : b + seconds m = b + seconds n :=
          WorkflowValue.time.inj (hvalue.symm.trans hvalue')
        have hseconds := Int.add_left_cancel htimes
        simp only [seconds] at hseconds
        omega
      · intro m value value' hm hm'
        obtain ⟨b, hb, hvalue⟩ := hm trivial
        obtain ⟨b', hb', hvalue'⟩ := hm' trivial
        obtain rfl : b = b' := Option.some.inj (hb.symm.trans hb')
        rw [hvalue, hvalue']
    rw [← nodup_numbers_iff]
    refine ⟨(List.rel_nodup hunique hvalues).symm,
      fun m => .time (desk.base.getD 0 + seconds m), eq_map_of_forall₂ (hvalues.imp ?_)⟩
    intro m value h
    obtain ⟨b, hb, hvalue⟩ := h trivial
    rw [hvalue, hb]
    rfl

/-! ### Executions of one workflow -/

/-- Blocks of known lengths are found again in their text. -/
theorem flatten_map_inj {ι β : Type} {f g : ι → List β} {is : List ι}
    (hlength : ∀ i ∈ is, (f i).length = (g i).length)
    (h : (is.map f).flatten = (is.map g).flatten) : ∀ i ∈ is, f i = g i := by
  induction is with
  | nil => simp
  | cons i is ih =>
      rw [List.map_cons, List.map_cons, List.flatten_cons, List.flatten_cons] at h
      obtain ⟨hhead, htail⟩ := List.append_inj h (hlength i (by simp))
      intro j hj
      rcases List.mem_cons.mp hj with rfl | hj
      · exact hhead
      · exact ih (fun j hj => hlength j (List.mem_cons_of_mem _ hj)) htail j hj

/-- Two hexadecimal digits determine a byte. -/
theorem hex_byte_inj : ∀ a b : Fin 256,
    [Nat.digitChar (a.val / 16), Nat.digitChar (a.val % 16)] =
      [Nat.digitChar (b.val / 16), Nat.digitChar (b.val % 16)] → a = b := by
  have hdigit : ∀ a b : Fin 16, Nat.digitChar a.val = Nat.digitChar b.val → a = b := by decide
  intro a b h
  simp only [List.cons.injEq, and_true] at h
  have hhigh := congrArg Fin.val (hdigit ⟨a.val / 16, by omega⟩ ⟨b.val / 16, by omega⟩ h.1)
  have hlow := congrArg Fin.val (hdigit ⟨a.val % 16, by omega⟩ ⟨b.val % 16, by omega⟩ h.2)
  dsimp only at hhigh hlow
  ext
  omega

theorem hyphenated_injective : Function.Injective hyphenated := by
  intro a b h
  unfold hyphenated at h
  have hblocks := String.ofList_injective h
  have hbytes := flatten_map_inj (fun i _ => by simp) hblocks
  funext i
  have hblock := List.append_cancel_left (hbytes i (List.mem_finRange i))
  have hval := hex_byte_inj ⟨(a i).toNat, (a i).toNat_lt⟩ ⟨(b i).toNat, (b i).toNat_lt⟩ hblock
  exact UInt8.toNat_inj.mp (congrArg Fin.val hval)

/-- The digest of the second seed. -/
def secondDigest : List UInt8 :=
  [22, 42, 133, 96, 249, 252, 66, 58, 147, 118, 31, 125, 156, 211, 239, 111, 119, 180, 206, 158,
    112, 124, 187, 12, 128, 179, 174, 32, 6, 34, 105, 188]

/-- Digests of the first two seeds of a workflow. -/
def twoSeedsLibrary : Library :=
  { sampleLibrary with
    sha256 := fun seed i =>
      if seed = "wf:uuid:2" then secondDigest.getD i 0 else sampleLibrary.sha256 seed i }

/-- An execution of the workflow `wf`. -/
def prepareOrder (steps : List Step) (h : Owned 0 steps) : RootExecution where
  context :=
    { invocationId := ⟨"wf"⟩
      taskId := ⟨.rust, "orders", "prepare"⟩
      workflow := some ⟨⟨"wf"⟩, ⟨.rust, "orders", "prepare"⟩, none, 0⟩
      isWorkflowDefining := true
      parentInvocationId := none
      numRetries := 0
      traceContext := {} }
  member := rfl
  defining := rfl
  steps := steps
  owned := h

/-- What the executions of a pool returned, those that have come to their end. -/
def rootOutcomes (lib : Library) (s : System dataCalls WorkflowData RootExecution) :
    List (Option (List WorkflowValue)) :=
  s.threads.map fun t => t.returned (t.task.first lib t.task.steps.length)

/-- The executions of a run, and what they returned. -/
def Ends (lib : Library) (s : System dataCalls WorkflowData RootExecution)
    (executions : List RootExecution) (results : List (Option (List WorkflowValue))) : Prop :=
  s.threads.map Thread.task = executions ∧ rootOutcomes lib s = results

instance (lib : Library) (s : System dataCalls WorkflowData RootExecution)
    (executions : List RootExecution) (results : List (Option (List WorkflowValue))) :
    Decidable (Ends lib s executions results) :=
  inferInstanceAs (Decidable (_ ∧ _))

/-- The first execution of a run, once it has come to its end. -/
theorem Ends.first {lib : Library} {s : System dataCalls WorkflowData RootExecution}
    {execution : RootExecution} {executions : List RootExecution} {results : List WorkflowValue}
    {others : List (Option (List WorkflowValue))}
    (h : Ends lib s (execution :: executions) (some results :: others)) :
    ∃ t ∈ s.threads, t.task = execution ∧ Obtained lib t execution.steps.length results := by
  obtain ⟨htasks, houtcomes⟩ := h
  unfold rootOutcomes at houtcomes
  cases hthreads : s.threads with
  | nil => simp [hthreads] at htasks
  | cons t rest =>
      rw [hthreads, List.map_cons, List.cons.injEq] at htasks houtcomes
      obtain ⟨rfl, -⟩ := htasks
      exact ⟨t, by simp, rfl, t.log.reverse, [], by simp, houtcomes.1⟩

/-- One handle, asked for two UUIDs. -/
def oneHandle : RootExecution :=
  prepareOrder [.current, .call 0 .uuid, .call 0 .uuid] (by decide)

theorem distinct_iff_one_handle_twice :
    ∃ s, Reachable (rootMachine twoSeedsLibrary) (Guard.top _ _ _) (atRest ∅) s ∧
      ∃ t ∈ s.threads, t.task = oneHandle ∧
        ((ofOperation .uuid [.uuid "8107c521-d708-4364-bcec-ab0d98ad5e4e",
          .uuid "162a8560-f9fc-423a-9376-1f7d9cd3ef6f"]).Nodup ↔
            OneHandle .uuid (t.task.steps.take 3)) := by
  obtain ⟨s, hs, hends⟩ := Reachable.exists_of_run (rootMachine twoSeedsLibrary)
    (Guard.top _ _ _) (atRest ∅) (.start oneHandle :: Label.steps 0 8 0)
    (fun s => Ends twoSeedsLibrary s [oneHandle]
      [some [.uuid "8107c521-d708-4364-bcec-ab0d98ad5e4e",
        .uuid "162a8560-f9fc-423a-9376-1f7d9cd3ef6f"]])
    (Guard.allowsAll_top _ _ _) (by decide +kernel)
  obtain ⟨t, ht, htask, hobtained⟩ := hends.first
  -- the first bytes differ already
  have hfirst : ∀ m n : Fin 4, 1 ≤ m.val → 1 ≤ n.val →
      uuidBytes (twoSeedsLibrary.sha256 ("wf" ++ ":uuid:" ++ toString m.val)) 0 =
        uuidBytes (twoSeedsLibrary.sha256 ("wf" ++ ":uuid:" ++ toString n.val)) 0 → m = n := by
    decide +kernel
  have hapart : SeedsApart twoSeedsLibrary ⟨"wf"⟩ 3 := by
    intro m n hm hn h
    have heq := hfirst ⟨m, by omega⟩ ⟨n, by omega⟩ hm.1 hn.1 (congrFun h 0)
    rw [Fin.mk.inj heq]
  refine ⟨s, hs, t, ht, htask, ?_⟩
  exact ((distinct_iff_one_handle twoSeedsLibrary ⟨"wf"⟩ hyphenated_injective
    (fresh_empty _)).1 s hs t ht (by rw [htask]; rfl) (by rw [htask]; exact hapart) 3 _ hobtained).1

/-- Two handles, one call each. -/
def twoHandles (operation : Operation) : RootExecution :=
  prepareOrder [.current, .call 0 operation, .current, .call 1 operation]
    ⟨by decide, by decide, trivial⟩

/-- One handle, asked for two timestamps, and an execution that overlaps. -/
def oneClock : RootExecution :=
  prepareOrder [.current, .call 0 .time, .call 0 .time] (by decide)

def otherClock : RootExecution :=
  prepareOrder [.current, .call 0 .time] (by decide)

/-- Both executions find no base time; the second one stores its own after the first one has
got a timestamp. -/
def overlapClocks : List (Label Timestamp RootExecution) :=
  [.start oneClock, .start otherClock] ++ Label.steps 0 1 0 ++ Label.steps 1 1 0 ++
    Label.steps 0 6 1000000000 ++ Label.steps 1 2 0 ++ Label.steps 0 5 0

/-- **Values that repeat.**  A second handle returns the first UUID and the first timestamp
again.  Timestamps of one handle repeat when an overlapping execution changes the base time. -/
theorem second_handle_repeats :
    (∃ s, Reachable (rootMachine sampleLibrary) (Guard.top _ _ _) (atRest ∅) s ∧
      ∃ t ∈ s.threads, t.task = twoHandles .uuid ∧
        Obtained sampleLibrary t 4 [.uuid "8107c521-d708-4364-bcec-ab0d98ad5e4e",
          .uuid "8107c521-d708-4364-bcec-ab0d98ad5e4e"]) ∧
    (∃ s, Reachable (rootMachine sampleLibrary) (Guard.top _ _ _) (atRest ∅) s ∧
      ∃ t ∈ s.threads, t.task = twoHandles .time ∧
        Obtained sampleLibrary t 4 [.time 1000000000, .time 1000000000]) ∧
    ∃ s, Reachable (rootMachine sampleLibrary) (Guard.top _ _ _) (atRest ∅) s ∧
      ∃ t ∈ s.threads, t.task = oneClock ∧
        Obtained sampleLibrary t 3 [.time 2000000000, .time 2000000000] := by
  refine ⟨?_, ?_, ?_⟩
  · obtain ⟨s, hs, hends⟩ := Reachable.exists_of_run (rootMachine sampleLibrary)
      (Guard.top _ _ _) (atRest ∅) (.start (twoHandles .uuid) :: Label.steps 0 5 0)
      (fun s => Ends sampleLibrary s [twoHandles .uuid]
        [some [.uuid "8107c521-d708-4364-bcec-ab0d98ad5e4e",
          .uuid "8107c521-d708-4364-bcec-ab0d98ad5e4e"]])
      (Guard.allowsAll_top _ _ _) (by decide +kernel)
    exact ⟨s, hs, hends.first⟩
  · obtain ⟨s, hs, hends⟩ := Reachable.exists_of_run (rootMachine sampleLibrary)
      (Guard.top _ _ _) (atRest ∅) (.start (twoHandles .time) :: Label.steps 0 9 0)
      (fun s => Ends sampleLibrary s [twoHandles .time] [some [.time 1000000000, .time 1000000000]])
      (Guard.allowsAll_top _ _ _) (by decide +kernel)
    exact ⟨s, hs, hends.first⟩
  · obtain ⟨s, hs, hends⟩ := Reachable.exists_of_run (rootMachine sampleLibrary)
      (Guard.top _ _ _) (atRest ∅) overlapClocks
      (fun s => Ends sampleLibrary s [oneClock, otherClock]
        [some [.time 2000000000, .time 2000000000], none])
      (Guard.allowsAll_top _ _ _) (by decide +kernel)
    exact ⟨s, hs, hends.first⟩

end Rustvello.Workflow
