import Rustvello.Mem.Provenance

/-!
# The default claim protocol

A store that does not override `claim_trigger_runs_with_records` claims a run and stores its
record in two calls.  An evaluation that finds a claim without a record stores it again, so
two evaluations may both be about to store the record of one run, and a completion may come
in between.

* `AtomicRuns` — any trigger store whose calls on single runs are atomic;
* `protocolMachine` — manager operations with the default protocol, and completions;
* `filing` — the discipline: an evaluation stores what it claimed first or found missing, a
  completion stores the run it found;
* `completedLast` — completions agree on the invocation, and evaluations do not store over a
  completed run;
* `outbox_drained` — then a completed run stays completed, and finished evaluations have left
  the records of their runs.
-/

namespace Rustvello.Mem

open Concurrency Proto Rustvello.Core

/-- The calls that may change run records. -/
def touchesRuns : outboxStore.Op → Bool
  | .inl (.claimTriggerRunsWithRecords _ _) => true
  | .inr (.storeTriggerRun _) => true
  | _ => false

/-- A trigger store with atomic calls, seen through the run records it holds. -/
structure AtomicRuns (σ ε : Type) where
  exec : ε → (c : outboxStore.Op) → σ → outboxStore.Ret c × σ
  run : σ → TriggerRunId → Option TriggerRun
  get_answer : ∀ env runId s, (exec env (.inr (.getTriggerRun runId)) s).1 = run s runId
  store_run : ∀ env record s, run (exec env (.inr (.storeTriggerRun record)) s).2 =
    Function.update (run s) record.triggerRunId (some record)
  frame : ∀ env c s, touchesRuns c = false → run (exec env c s).2 = run s

/-- Every operation, an evaluation with the default protocol. -/
def OutboxTask.programOneByOne (croner : Croner) (codec : Codec) : OutboxTask → Outbox Unit
  | manager .evaluate => (evaluateTriggerRunsOneByOne codec).toUnit
  | manager task => (task.program croner codec).inl
  | complete runId id => completeTriggerRun runId id

/-- A completion, and not an operation of the manager. -/
def OutboxTask.isComplete : OutboxTask → Bool
  | complete _ _ => true
  | manager _ => false

/-- Two completions of one run name the same invocation. -/
def OutboxTask.Agrees : OutboxTask → OutboxTask → Prop
  | complete runId id, complete runId' id' => runId = runId' → id = id'
  | _, _ => True

section Protocol

variable {σ ε : Type} (store : AtomicRuns σ ε) (croner : Croner) (codec : Codec)

def protocolMachine : Machine outboxStore σ ε OutboxTask where
  exec := store.exec
  program := OutboxTask.programOneByOne croner codec

/-- Completions of one run agree, and an evaluation stores the record of a run only while the
run is not completed. -/
def completedLast : Guard outboxStore σ OutboxTask where
  start s task := ∀ t ∈ s.threads, t.task.Agrees task
  call s i c := match c with
    | .inr (.storeTriggerRun record) => ∀ t ∈ s.threads[i]?, t.task.isComplete = false →
        ∀ run ∈ store.run s.shared record.triggerRunId, run.triggeredInvocationId = none
    | _ => True

end Protocol

/-! ## The discipline -/

/-- What an operation knows of runs: those it tried to claim, the one whose record it is going
to read or to store, and whether a completion has stored its run. -/
structure Filing where
  task : OutboxTask
  tried : List TriggerRunId := []
  asking : Option TriggerRunId := none
  due : Option TriggerRunId := none
  filed : Bool := false

def Filing.next : (c : outboxStore.Op) → outboxStore.Ret c → Filing → Filing
  | .inr (.claimTriggerRun runId), true, g => { g with tried := runId :: g.tried, due := some runId }
  | .inr (.claimTriggerRun runId), false, g =>
      { g with tried := runId :: g.tried, asking := some runId }
  | .inr (.getTriggerRun runId), run, g =>
      if g.task.isComplete then g
      else { g with asking := none, due := if run.isNone then some runId else none }
  | .inr (.storeTriggerRun _), _, g =>
      if g.task.isComplete then { g with filed := true } else { g with due := none }
  | _, _, g => g

/-- An evaluation claims, asks and stores one run after the other; a completion stores the
run that it was asked for, with the invocation. -/
def filing : Discipline outboxStore OutboxTask Filing where
  start task := { task := task }
  next := Filing.next
  pre
    | .inl (.claimTriggerRunsWithRecords _ _), _ => False
    | .inr (.claimTriggerRun _), g => g.due = none ∧ g.asking = none
    | .inr (.getTriggerRun runId), g => match g.task with
        | .complete runId' _ => runId = runId'
        | .manager _ => g.asking = some runId ∧ g.due = none
    | .inr (.storeTriggerRun record), g => match g.task with
        | .complete runId id => record.triggerRunId = runId ∧ record.triggeredInvocationId = some id
        | .manager _ => g.due = some record.triggerRunId ∧ g.asking = none
    | _, _ => True
  resp
    | .inr (.getTriggerRun runId), _, run => ∀ found, run = some found → found.triggerRunId = runId
    | _, _, _ => True

/-- Nothing is left to be read or stored. -/
def Filing.Settled (g : Filing) : Prop :=
  g.due = none ∧ g.asking = none

section Programs

theorem claimWithRecord_obeys {record : TriggerRun} {task : TriggerTask} {g : Filing}
    (htask : g.task = .manager task) (hg : g.Settled) :
    filing.Obeys (claimWithRecord record) (fun _ g' => g'.task = .manager task ∧ g'.Settled) g := by
  obtain ⟨_, tried, _, _, filed⟩ := g
  obtain rfl := htask
  obtain ⟨rfl, rfl⟩ := hg
  refine ⟨⟨rfl, rfl⟩, fun first _ => ?_⟩
  cases first with
  | true => exact ⟨⟨rfl, rfl⟩, fun _ _ => ⟨rfl, rfl, rfl⟩⟩
  | false =>
      refine ⟨⟨rfl, rfl⟩, fun run _ => ?_⟩
      cases run with
      | some run => exact ⟨rfl, rfl, rfl⟩
      | none => exact ⟨⟨rfl, rfl⟩, fun _ _ => ⟨rfl, rfl, rfl⟩⟩

theorem claimEach_obeys (records : List TriggerRun) {task : TriggerTask} {g : Filing}
    (htask : g.task = .manager task) (hg : g.Settled) :
    filing.Obeys (claimEach records) (fun _ g' => g'.Settled) g := by
  induction records generalizing g with
  | nil => exact hg
  | cons record rest ih =>
      apply (claimWithRecord_obeys htask hg).bind
      intro first g₁ hg₁
      apply (ih hg₁.1 hg₁.2).bind
      intro others g₂ hg₂
      exact hg₂

variable (codec : Codec)

/-- No call of the manager but a claim touches a run. -/
theorem filing_quiet {c : TriggerCall}
    (hc : ∀ records consumed, c ≠ .claimTriggerRunsWithRecords records consumed) :
    filing.left.Quiet c := by
  intro g
  cases c with
  | claimTriggerRunsWithRecords records consumed => exact absurd rfl (hc records consumed)
  | _ => exact ⟨trivial, fun _ => rfl⟩

/-- Planning leaves the book alone. -/
theorem planRuns_quiet : (planRuns codec).Uses filing.left.Answers filing.left.Quiet := by
  apply uses_store_bind (filing_quiet (by simp))
  intro valid _
  split
  · trivial
  · apply uses_store_bind (filing_quiet (by simp))
    intro keys _
    apply Prog.uses_bind (uses_affectedTriggers (fun _ => filing_quiet (by simp)) [] keys)
    intro triggers
    apply uses_store_bind (filing_quiet (by simp))
    intro order _
    apply uses_store_bind (filing_quiet (by simp))
    intro now _
    trivial

theorem evaluateTriggerRunsOneByOne_obeys :
    filing.Obeys (evaluateTriggerRunsOneByOne codec) (fun _ g => g.Settled)
      (filing.start (.manager .evaluate)) := by
  have hstart : (filing.start (.manager .evaluate)).Settled := ⟨rfl, rfl⟩
  apply Discipline.Obeys.bind ((Discipline.obeys_inl _).mpr
    (Discipline.Obeys.of_uses (planRuns_quiet codec) _))
  rintro ⟨candidates, consumed⟩ g rfl
  dsimp only
  split
  · exact hstart
  · unfold claimTriggerRunsWithRecords
    apply Discipline.Obeys.bind (R := fun _ g => g.Settled)
    · apply Discipline.Obeys.bind (claimEach_obeys _ rfl hstart)
      intro claimed g hg
      exact ⟨trivial, fun _ _ => hg⟩
    · intro claimed g hg
      exact hg

theorem linkEvents_filing (id : InvocationId) (eventIds : List String) (g : Filing) :
    filing.Obeys (linkEvents id eventIds) (fun _ g' => g' = g) g := by
  induction eventIds with
  | nil => rfl
  | cons eventId rest ih =>
      unfold linkEvents
      apply Discipline.Obeys.bind (R := fun _ g' => g' = g)
      · refine ⟨trivial, fun event _ => ?_⟩
        cases event with
        | none => rfl
        | some event =>
            show filing.Obeys (if id ∈ event.triggeredInvocationIds then pure ()
              else manage (.storeEvent
                { event with triggeredInvocationIds := event.triggeredInvocationIds ++ [id] })) _ g
            split
            · rfl
            · exact ⟨trivial, fun _ _ => rfl⟩
      · rintro _ _ rfl
        exact ih

theorem completeTriggerRun_filing (runId : TriggerRunId) (id : InvocationId) :
    filing.Obeys (completeTriggerRun runId id) (fun _ g => g.Settled)
      (filing.start (.complete runId id)) := by
  refine ⟨rfl, fun run hrun => ?_⟩
  cases run with
  | none => exact ⟨rfl, rfl⟩
  | some run =>
      refine ⟨trivial, fun now _ => ?_⟩
      refine ⟨⟨hrun run rfl, rfl⟩, fun _ _ => ?_⟩
      apply (linkEvents_filing id _ _).mono
      rintro _ _ rfl
      exact ⟨rfl, rfl⟩

theorem programOneByOne_obeys (croner : Croner) (task : OutboxTask) :
    filing.Obeys (task.programOneByOne croner codec) (fun _ g => g.Settled)
      (filing.start task) := by
  -- reports, emissions and cron passes touch no run
  have hother : ∀ (p : Manager Unit) (task : TriggerTask),
      p.Uses filing.left.Answers filing.left.Quiet →
        filing.Obeys p.inl (fun _ g => g.Settled) (filing.start (.manager task)) := by
    intro p task huses
    rw [Discipline.obeys_inl]
    apply (Discipline.Obeys.of_uses huses _).mono
    rintro _ _ rfl
    exact ⟨rfl, rfl⟩
  cases task with
  | complete runId id => exact completeTriggerRun_filing runId id
  | manager task =>
      cases task with
      | evaluate => exact Discipline.Obeys.toUnit (evaluateTriggerRunsOneByOne_obeys codec)
      | statusChange ctx | result ctx | failure ctx =>
          apply hother
          apply Prog.uses_bind
          · exact uses_evaluateTaskConditions codec (fun _ => filing_quiet (by simp))
              (fun _ => filing_quiet (by simp)) _ _
          · exact fun _ => trivial
      | event eventCode payload =>
          apply hother
          apply Prog.uses_bind
          · exact uses_emitEvent codec (filing_quiet (by simp)) (filing_quiet (by simp))
              (fun _ => filing_quiet (by simp)) (fun _ => filing_quiet (by simp))
              (fun _ => filing_quiet (by simp)) eventCode payload
          · exact fun _ => trivial
      | cron =>
          apply hother
          apply Prog.uses_bind
          · exact uses_evaluateCronConditions codec croner (filing_quiet (by simp))
              (filing_quiet (by simp)) (fun _ => filing_quiet (by simp))
              (fun _ _ _ => filing_quiet (by simp)) (fun _ _ => filing_quiet (by simp))
          · exact fun _ => trivial

end Programs

/-! ## The invariant -/

section Invariant

variable {σ ε : Type} {store : AtomicRuns σ ε}

/-- Runs are stored under their ids, what a completion has stored stands, and the runs that an
operation tried are stored or about to be. -/
structure Drained (store : AtomicRuns σ ε) (s : σ) (books : List Filing) : Prop where
  keyed : ∀ runId run, store.run s runId = some run → run.triggerRunId = runId
  agreed : ∀ g ∈ books, ∀ g' ∈ books, g.task.Agrees g'.task
  filed : ∀ g ∈ books, g.filed = true → ∀ runId id, g.task = .complete runId id →
    ∃ run, store.run s runId = some run ∧ run.triggeredInvocationId = some id
  tried : ∀ g ∈ books, ∀ runId ∈ g.tried,
    (store.run s runId).isSome ∨ g.due = some runId ∨ g.asking = some runId

variable {s s' : σ} {before after : List Filing} {g g' : Filing}

/-- The books after a call are those before, as far as tasks go. -/
theorem Drained.agreed_replace (h : Drained store s (before ++ g :: after))
    (htask : g'.task = g.task) :
    ∀ b ∈ before ++ g' :: after, ∀ b' ∈ before ++ g' :: after, b.task.Agrees b'.task := by
  have hsame : ∀ b ∈ before ++ g' :: after, ∃ b₀ ∈ before ++ g :: after, b₀.task = b.task := by
    intro b hb
    rcases mem_replaced hb with hb | rfl
    · exact ⟨b, mem_of_others hb g, rfl⟩
    · exact ⟨g, by simp, htask.symm⟩
  intro b hb b' hb'
  obtain ⟨b₀, hb₀, htask₀⟩ := hsame b hb
  obtain ⟨b₁, hb₁, htask₁⟩ := hsame b' hb'
  rw [← htask₀, ← htask₁]
  exact h.agreed b₀ hb₀ b₁ hb₁

@[simp] theorem Filing.next_task (c : outboxStore.Op) (r : outboxStore.Ret c) (g : Filing) :
    (Filing.next c r g).task = g.task := by
  unfold Filing.next
  split
  · rfl
  · rfl
  · split <;> rfl
  · split <;> rfl
  · rfl

theorem filing_book_task (t : Thread outboxStore OutboxTask) : (filing.book t).task = t.task := by
  have hread : ∀ log, (filing.read t.task log).task = t.task := by
    intro log
    induction log with
    | nil => rfl
    | cons e log ih => exact (Filing.next_task _ _ _).trans ih
  exact hread t.log

/-- A call that leaves the records alone. -/
theorem Drained.of_run_eq (h : Drained store s (before ++ g :: after))
    (hrun : store.run s' = store.run s) (htask : g'.task = g.task) (hfiled : g'.filed = g.filed)
    (htried : ∀ runId ∈ g'.tried,
      (store.run s runId).isSome ∨ g'.due = some runId ∨ g'.asking = some runId) :
    Drained store s' (before ++ g' :: after) := by
  constructor
  · rw [hrun]
    exact h.keyed
  · exact h.agreed_replace htask
  · rw [hrun]
    apply forall_replace h.filed (fun _ hb => hb)
    rw [hfiled, htask]
    exact h.filed g (by simp)
  · rw [hrun]
    exact forall_replace h.tried (fun _ hb => hb) htried

/-- A record is stored: the invocation that a completion left there stays. -/
theorem Drained.file (h : Drained store s (before ++ g :: after)) {record : TriggerRun}
    (hrun : store.run s' = Function.update (store.run s) record.triggerRunId (some record))
    (hkept : ∀ b ∈ before ++ g :: after, b.filed = true → ∀ id,
      b.task = .complete record.triggerRunId id → record.triggeredInvocationId = some id)
    (htask : g'.task = g.task)
    (hfiled : g'.filed = true → g.filed = true ∨ ∀ runId id, g.task = .complete runId id →
      runId = record.triggerRunId ∧ record.triggeredInvocationId = some id)
    (htried : ∀ runId ∈ g'.tried, runId ∈ g.tried)
    (hdue : ∀ runId, g.due = some runId → runId = record.triggerRunId ∨ g'.due = some runId)
    (hasking : g'.asking = g.asking) :
    Drained store s' (before ++ g' :: after) := by
  have hrun' : ∀ runId, store.run s' runId =
      if runId = record.triggerRunId then some record else store.run s runId := by
    intro runId
    rw [hrun, Function.update_apply]
  have hsome : ∀ runId, (store.run s runId).isSome → (store.run s' runId).isSome := by
    intro runId hstored
    rw [hrun']
    split
    · rfl
    · exact hstored
  have hold : ∀ b ∈ before ++ g :: after, b.filed = true → ∀ runId id,
      b.task = .complete runId id →
        ∃ run, store.run s' runId = some run ∧ run.triggeredInvocationId = some id := by
    intro b hb hfiled runId id htask
    rw [hrun']
    by_cases hid : runId = record.triggerRunId
    · subst hid
      rw [if_pos rfl]
      exact ⟨record, rfl, hkept b hb hfiled id htask⟩
    · rw [if_neg hid]
      exact h.filed b hb hfiled runId id htask
  constructor
  · intro runId run hstored
    rw [hrun'] at hstored
    split at hstored
    · rename_i hid
      obtain rfl := Option.some.inj hstored
      exact hid.symm
    · exact h.keyed runId run hstored
  · exact h.agreed_replace htask
  · apply forall_replace hold (fun _ hb => hb)
    intro hnow runId id hcomplete
    rw [htask] at hcomplete
    rcases hfiled hnow with hfiled | hfresh
    · exact hold g (by simp) hfiled runId id hcomplete
    · obtain ⟨rfl, hid⟩ := hfresh runId id hcomplete
      exact ⟨record, by rw [hrun', if_pos rfl], hid⟩
  · refine forall_replace h.tried ?_ ?_
    · intro b hb runId hrunId
      exact (hb runId hrunId).imp_left (hsome runId)
    · intro runId hrunId
      rcases h.tried g (by simp) runId (htried runId hrunId) with hstored | hopen | hopen
      · exact .inl (hsome runId hstored)
      · rcases hdue runId hopen with rfl | hopen
        · exact .inl (by rw [hrun', if_pos rfl]; rfl)
        · exact .inr (.inl hopen)
      · exact .inr (.inr (hasking.trans hopen))

/-- A claim: all runs tried before are stored, and this one is the open one. -/
theorem Drained.claim (h : Drained store s (before ++ g :: after)) {runId : TriggerRunId}
    (hrun : store.run s' = store.run s) (hpre : filing.pre (.inr (.claimTriggerRun runId)) g)
    (first : Bool) :
    Drained store s'
      (before ++ filing.next (.inr (.claimTriggerRun runId)) first g :: after) := by
  have hstored : ∀ tried ∈ g.tried, (store.run s tried).isSome := by
    intro tried htried
    rcases h.tried g (by simp) tried htried with hstored | hopen | hopen
    · exact hstored
    · rw [hpre.1] at hopen
      cases hopen
    · rw [hpre.2] at hopen
      cases hopen
  cases first with
  | true =>
      refine h.of_run_eq hrun rfl rfl ?_
      intro tried htried
      rcases List.mem_cons.mp htried with rfl | htried
      · exact .inr (.inl rfl)
      · exact .inl (hstored tried htried)
  | false =>
      refine h.of_run_eq hrun rfl rfl ?_
      intro tried htried
      rcases List.mem_cons.mp htried with rfl | htried
      · exact .inr (.inr rfl)
      · exact .inl (hstored tried htried)

/-- A record is read: the run that an evaluation asked for is stored, or about to be. -/
theorem Drained.ask (h : Drained store s (before ++ g :: after)) {runId : TriggerRunId}
    (hrun : store.run s' = store.run s) (hpre : filing.pre (.inr (.getTriggerRun runId)) g) :
    Drained store s'
      (before ++ filing.next (.inr (.getTriggerRun runId)) (store.run s runId) g :: after) := by
  have hknown := h.tried g (by simp)
  obtain ⟨task, tried, asking, due, filed⟩ := g
  cases task with
  | complete _ _ => exact h.of_run_eq hrun rfl rfl hknown
  | manager task =>
      obtain ⟨rfl, rfl⟩ := hpre
      refine h.of_run_eq hrun rfl rfl ?_
      intro other htried
      rcases hknown other htried with hstored | hopen | hopen
      · exact .inl hstored
      · cases hopen
      · obtain rfl := Option.some.inj hopen
        cases hstored : store.run s runId with
        | some run => exact .inl rfl
        | none => exact .inr (.inl (by simp [filing, Filing.next, OutboxTask.isComplete]))

/-- A record is stored, by a completion or over a run that is not completed. -/
theorem Drained.storeRecord (h : Drained store s (before ++ g :: after)) {record : TriggerRun}
    (hrun : store.run s' = Function.update (store.run s) record.triggerRunId (some record))
    (hpre : filing.pre (.inr (.storeTriggerRun record)) g)
    (hopen : g.task.isComplete = false →
      ∀ run ∈ store.run s record.triggerRunId, run.triggeredInvocationId = none) :
    Drained store s'
      (before ++ filing.next (.inr (.storeTriggerRun record)) () g :: after) := by
  have hagreed := fun b hb => h.agreed b hb g (by simp)
  obtain ⟨task, tried, asking, due, filed⟩ := g
  cases task with
  | complete runId id =>
      obtain ⟨rfl, hinvocation⟩ := hpre
      refine h.file hrun ?_ rfl ?_ (fun _ hmem => hmem) (fun _ hdue => .inr hdue) rfl
      · -- another completion of the run names the same invocation
        intro b hb _ other hother
        have hagree := hagreed b hb
        rw [hother] at hagree
        rw [hinvocation, hagree rfl]
      · intro _
        right
        rintro _ _ ⟨⟩
        exact ⟨rfl, hinvocation⟩
  | manager task =>
      obtain ⟨rfl, rfl⟩ := hpre
      refine h.file hrun ?_ rfl .inl (fun _ hmem => hmem) ?_ rfl
      · -- no completion of the run has stored it yet
        intro b hb hfiled id hcomplete
        obtain ⟨run, hstored, hid⟩ := h.filed b hb hfiled _ id hcomplete
        rw [hopen rfl run hstored] at hid
        cases hid
      · intro runId hdue
        exact .inl (Option.some.inj hdue).symm

/-- **One call keeps the outbox drained.** -/
theorem Drained.call {croner : Croner} {codec : Codec} {init s : System outboxStore σ OutboxTask}
    {i : Nat} (env : ε) {t : Thread outboxStore OutboxTask} {c : outboxStore.Op}
    (hturn : filing.Turn (protocolMachine store croner codec) (completedLast store) init
      Filing.Settled s i t c before after)
    (h : Drained store s.shared (before ++ filing.book t :: after)) :
    filing.resp c (filing.book t) (store.exec env c s.shared).1 ∧
      Drained store (store.exec env c s.shared).2
        (before ++ filing.next c (store.exec env c s.shared).1 (filing.book t) :: after) := by
  have hpre := hturn.permitted
  have hquiet : ∀ c, touchesRuns c = false → Drained store (store.exec env c s.shared).2
      (before ++ filing.book t :: after) := by
    intro c hc
    exact h.of_run_eq (store.frame env c s.shared hc) rfl rfl (h.tried _ (by simp))
  cases c with
  | inl c =>
      refine ⟨trivial, ?_⟩
      cases c with
      | claimTriggerRunsWithRecords records consumed => exact hpre.elim
      | _ => exact hquiet _ rfl
  | inr c =>
      cases c with
      | clearValidConditions ids => exact ⟨trivial, hquiet _ rfl⟩
      | getEvent eventId => exact ⟨trivial, hquiet _ rfl⟩
      | claimTriggerRun runId =>
          exact ⟨trivial, h.claim (store.frame env _ s.shared rfl) hpre _⟩
      | getTriggerRun runId =>
          have hanswer := store.get_answer env runId s.shared
          refine ⟨fun found hfound => h.keyed runId found (hanswer.symm.trans hfound), ?_⟩
          rw [hanswer]
          exact h.ask (store.frame env _ s.shared rfl) hpre
      | storeTriggerRun record =>
          refine ⟨trivial, h.storeRecord (store.store_run env record s.shared) hpre ?_⟩
          rw [filing_book_task]
          exact hturn.allowed t hturn.thread

end Invariant

/-! ## Completed runs stay completed -/

/-- A record that an operation stored. -/
def storedRun? : Event outboxStore → Option TriggerRun
  | ⟨.inr (.storeTriggerRun record), _⟩ => some record
  | _ => none

/-- A run that an evaluation tried to claim. -/
def triedRun? : Event outboxStore → Option TriggerRunId
  | ⟨.inr (.claimTriggerRun runId), _⟩ => some runId
  | _ => none

/-- A completion that has stored its run left it completed, with its invocation; the runs of a
finished evaluation, whoever claimed them first, have records. -/
structure OutboxDrained {σ ε : Type} (store : AtomicRuns σ ε) (s : System outboxStore σ OutboxTask) :
    Prop where
  completed : ∀ t ∈ s.threads, ∀ runId id, t.task = .complete runId id →
    t.log.filterMap storedRun? ≠ [] → ∃ run, store.run s.shared runId = some run ∧
      run.triggeredInvocationId = some id ∧ TriggerRun.isPending run = false
  recorded : ∀ t ∈ s.threads, t.task = .manager .evaluate → t.next? = none →
    ∀ runId ∈ t.log.filterMap triedRun?, (store.run s.shared runId).isSome

section Runs

variable {σ ε : Type} (store : AtomicRuns σ ε) (croner : Croner) (codec : Codec)

/-- The book of an operation has what its log says. -/
theorem filing_read (task : OutboxTask) (log : List (Event outboxStore)) :
    (filing.read task log).tried = log.filterMap triedRun? ∧
      (task.isComplete = true → log.filterMap storedRun? ≠ [] →
        (filing.read task log).filed = true) := by
  induction log with
  | nil => exact ⟨rfl, fun _ h => absurd rfl h⟩
  | cons e log ih =>
      obtain ⟨htried, hfiled⟩ := ih
      have htask : (filing.read task log).task = task := filing_book_task ⟨task, .done (), log⟩
      rw [Monitor.read_cons]
      obtain ⟨c, r⟩ := e
      rcases c with c | c
      · cases c <;> exact ⟨htried, hfiled⟩
      · cases c with
        | claimTriggerRun runId =>
            cases r with
            | true => exact ⟨congrArg (runId :: ·) htried, hfiled⟩
            | false => exact ⟨congrArg (runId :: ·) htried, hfiled⟩
        | clearValidConditions ids => exact ⟨htried, hfiled⟩
        | getEvent eventId => exact ⟨htried, hfiled⟩
        | getTriggerRun runId =>
            simp only [filing, Filing.next] at htask htried hfiled ⊢
            rw [htask]
            split
            · exact ⟨htried, hfiled⟩
            · exact ⟨htried, hfiled⟩
        | storeTriggerRun record =>
            simp only [filing, Filing.next] at htask htried hfiled ⊢
            rw [htask]
            split
            · exact ⟨htried, fun _ _ => rfl⟩
            · rename_i hmanager
              exact ⟨htried, fun hcomplete => absurd hcomplete hmanager⟩

/-- A store with records under their ids, and nothing going on. -/
theorem drained_upheld {init : σ}
    (hkeyed : ∀ runId run, store.run init runId = some run → run.triggerRunId = runId) :
    filing.Upheld Filing.Settled (Drained store) (protocolMachine store croner codec)
      (completedLast store) ⟨init, []⟩ where
  program _ task _ := programOneByOne_obeys codec croner task
  obey t ht := by cases ht
  logs t ht := by cases ht
  holds := ⟨hkeyed, by simp [System.books], by simp [System.books], by simp [System.books]⟩
  start s task hstart h := by
    have hagree : ∀ g ∈ s.books filing.toMonitor, g.task.Agrees task ∧ task.Agrees g.task := by
      intro g hg
      obtain ⟨t, ht, rfl⟩ := List.mem_map.mp hg
      have hself := hstart t ht
      rw [filing_book_task t]
      refine ⟨hself, ?_⟩
      cases task with
      | manager _ => trivial
      | complete runId id =>
          cases htask : t.task with
          | manager _ => trivial
          | complete runId' id' =>
              rw [htask] at hself
              exact fun hid => (hself hid.symm).symm
    have hnew : (filing.start task).task.Agrees (filing.start task).task := by
      show task.Agrees task
      cases task with
      | manager _ => trivial
      | complete runId id => exact fun _ => rfl
    constructor
    · exact h.keyed
    · intro g hg g' hg'
      rcases List.mem_append.mp hg with hg | hg
      · rcases List.mem_append.mp hg' with hg' | hg'
        · exact h.agreed g hg g' hg'
        · rw [List.mem_singleton.mp hg']
          exact (hagree g hg).1
      · rw [List.mem_singleton.mp hg]
        rcases List.mem_append.mp hg' with hg' | hg'
        · exact (hagree g' hg').2
        · rw [List.mem_singleton.mp hg']
          exact hnew
    · intro g hg hfiled
      rcases List.mem_append.mp hg with hg | hg
      · exact h.filed g hg hfiled
      · rw [List.mem_singleton.mp hg] at hfiled
        cases hfiled
    · intro g hg runId hrunId
      rcases List.mem_append.mp hg with hg | hg
      · exact h.tried g hg runId hrunId
      · rw [List.mem_singleton.mp hg] at hrunId
        cases hrunId
  call _ _ env _ _ _ _ hturn h := h.call env hturn

/-- **A completed run does not come back to the outbox** where evaluations never store over
it, and no run that an evaluation is through with lacks a record. -/
theorem outbox_drained {init : σ}
    (hkeyed : ∀ runId run, store.run init runId = some run → run.triggerRunId = runId)
    {s : System outboxStore σ OutboxTask}
    (hreach : Reachable (protocolMachine store croner codec) (completedLast store) ⟨init, []⟩ s) :
    OutboxDrained store s := by
  obtain ⟨hobey, hinv⟩ := (drained_upheld store croner codec hkeyed).obeyed hreach
  constructor
  · intro t ht runId id htask hstored
    obtain ⟨-, hfiled⟩ := filing_read t.task t.log
    have hbook : filing.book t ∈ s.books filing.toMonitor := List.mem_map_of_mem ht
    obtain ⟨run, hrun, hid⟩ := hinv.filed _ hbook (hfiled (by rw [htask]; rfl) hstored) runId id
      ((filing_book_task t).trans htask)
    exact ⟨run, hrun, hid, by simp [TriggerRun.isPending, hid]⟩
  · intro t ht _ hdone runId hrunId
    obtain ⟨htried, -⟩ := filing_read t.task t.log
    have hbook : filing.book t ∈ s.books filing.toMonitor := List.mem_map_of_mem ht
    -- a finished operation has nothing open
    have hsettled : (filing.book t).Settled := by
      have hob := hobey t ht
      cases hprog : t.prog with
      | done u =>
          rw [hprog] at hob
          exact hob
      | call c k => simp [Thread.next?, hprog] at hdone
    rcases hinv.tried _ hbook runId (by rw [Monitor.book, htried]; exact hrunId) with
      hstored | hopen | hopen
    · exact hstored
    · rw [hsettled.1] at hopen
      cases hopen
    · rw [hsettled.2] at hopen
      cases hopen

end Runs

/-! ## The in-memory store with the default protocol -/

/-- The single calls of the in-memory store. -/
def memRuns : AtomicRuns MemTriggerStore TriggerEnv where
  exec := MemTriggerStore.execStore
  run s runId := s.triggerRuns.lookup runId
  get_answer _ _ _ := rfl
  store_run env record s := by
    funext runId
    show (s.triggerRuns.insert record.triggerRunId record).lookup runId = _
    rw [Function.update_apply]
    split
    · rename_i hid
      rw [hid, AList.lookup_insert]
    · rename_i hid
      exact AList.lookup_insert_ne hid
  frame env c s hc := by
    funext runId
    rcases c with c | c
    · cases c with
      | claimTriggerRunsWithRecords records consumed => cases hc
      | storeCronExecution condId time last =>
          simp only [MemTriggerStore.execStore, MemTriggerStore.exec,
            MemTriggerStore.storeCronExecution]
          split <;> rfl
      | _ => rfl
    · cases c with
      | storeTriggerRun record => cases hc
      | claimTriggerRun other =>
          simp only [MemTriggerStore.execStore, MemTriggerStore.execOutbox]
          split <;> rfl
      | _ => rfl

instance (task task' : OutboxTask) : Decidable (task.Agrees task') :=
  match task, task' with
  | .complete runId id, .complete runId' id' =>
      inferInstanceAs (Decidable (runId = runId' → id = id'))
  | .complete _ _, .manager _ => .isTrue trivial
  | .manager _, .complete _ _ => .isTrue trivial
  | .manager _, .manager _ => .isTrue trivial

instance (s : System outboxStore MemTriggerStore OutboxTask) (task : OutboxTask) :
    Decidable ((completedLast memRuns).start s task) :=
  inferInstanceAs (Decidable (∀ t ∈ s.threads, t.task.Agrees task))

instance (s : System outboxStore MemTriggerStore OutboxTask) (i : Nat) (c : outboxStore.Op) :
    Decidable ((completedLast memRuns).call s i c) :=
  match c with
  | .inr (.storeTriggerRun record) => inferInstanceAs (Decidable (∀ t ∈ s.threads[i]?,
      t.task.isComplete = false →
        ∀ run ∈ memRuns.run s.shared record.triggerRunId, run.triggeredInvocationId = none))
  | .inr (.claimTriggerRun _) | .inr (.clearValidConditions _) | .inr (.getTriggerRun _)
  | .inr (.getEvent _) | .inl _ => .isTrue trivial

/-- Event `paid` is emitted, an evaluation claims its run and stops, and another one finds no
record, stores it and finishes; then the run is completed. -/
def repairSchedule : List (Label TriggerEnv OutboxTask) :=
  .start (.manager (.event "paid" .null)) :: Label.steps 0 6 { eventId := "e-1" } ++
    .start (.manager .evaluate) :: Label.steps 1 6 default ++
    .start (.manager .evaluate) :: Label.steps 2 9 default ++
    .start paidTask :: Label.steps 3 5 default

/-- The first evaluation does not come back: the run stays completed. -/
theorem outbox_drained_repaired :
    ∃ s, Reachable (protocolMachine memRuns idleCroner sampleCodec) (completedLast memRuns)
        paidOutbox s ∧ OutboxDrained memRuns s ∧
      (∃ t ∈ s.threads, t.task = paidTask ∧ t.log.filterMap storedRun? ≠ []) ∧
      ∃ t ∈ s.threads, t.task = .manager .evaluate ∧ t.next? = none ∧
        paidRunId ∈ t.log.filterMap triedRun? := by
  obtain ⟨s, hreach, hrest⟩ := Reachable.exists_of_run
    (protocolMachine memRuns idleCroner sampleCodec) (completedLast memRuns) paidOutbox
    repairSchedule
    (fun s => (∃ t ∈ s.threads, t.task = paidTask ∧ t.log.filterMap storedRun? ≠ []) ∧
      ∃ t ∈ s.threads, t.task = .manager .evaluate ∧ t.next? = none ∧
        paidRunId ∈ t.log.filterMap triedRun?)
    (by decide +kernel) (by decide +kernel)
  refine ⟨s, hreach, outbox_drained memRuns idleCroner sampleCodec ?_ hreach, hrest⟩
  intro runId run hrun
  have hnone := (MemTriggerStore.withTriggers_idle sampleCodec [onEvent "paid"]
    [notifyOn (onEvent "paid")]).2.2
  simp [memRuns, hnone] at hrun

/-- The first evaluation stores its record after the completion: the run is pending again. -/
theorem late_claim_reopens_run :
    ∃ s, Reachable (protocolMachine memRuns idleCroner sampleCodec)
      (Guard.top outboxStore MemTriggerStore OutboxTask) paidOutbox s ∧
        ¬ OutboxDrained memRuns s := by
  obtain ⟨s, hreach, t, ht, htask, hstored, hpending⟩ := Reachable.exists_of_run
    (protocolMachine memRuns idleCroner sampleCodec)
    (Guard.top outboxStore MemTriggerStore OutboxTask) paidOutbox
    (repairSchedule ++ Label.steps 1 1 default)
    (fun s => ∃ t ∈ s.threads, t.task = paidTask ∧ t.log.filterMap storedRun? ≠ [] ∧
      (memRuns.run s.shared paidRunId).map TriggerRun.isPending = some true)
    (Guard.allowsAll_top _ _ _) (by decide +kernel)
  refine ⟨s, hreach, fun hdrained => ?_⟩
  obtain ⟨run, hrun, -, hdone⟩ := hdrained.completed t ht _ _ htask hstored
  rw [hrun] at hpending
  simp [hdone] at hpending

end Rustvello.Mem
