import Rustvello.Core.TriggerOutbox
import Rustvello.Mem.TriggerRuns

/-!
# Provenance links of events

An event record holds the conditions it matched and the invocations it led to.  The emitter
stores the record, matches, and stores it again with the matches; every completion of a run
reads the records of its events and writes them back with one more invocation.  These are
whole records, so a link is kept only if the record is still the one that was read.

* `execOutbox`, `outboxMachine` — the in-memory store, and any number of manager
  operations and completions on it;
* `Extends` — a record has all links of another;
* `provenance` — the discipline: what an operation stores extends what it last saw;
* `uncontested` — a stored record has not changed since, or already is what is written;
* `provenance_kept` — then no link is lost.
-/

namespace Rustvello.Mem

open Concurrency Proto Rustvello.Core

namespace MemTriggerStore

/-- Carry out one call on a single run or event. -/
def execOutbox (env : TriggerEnv) : (c : OutboxCall) → MemTriggerStore → c.Ans × MemTriggerStore
  | .claimTriggerRun runId, s =>
      if (s.triggerRunClaims.lookup runId).isSome then (false, s)
      else (true,
        { s with triggerRunClaims := s.triggerRunClaims.insert runId env.clock.instant })
  | .clearValidConditions ids, s => ((), s.consume ids)
  | .getTriggerRun runId, s => (s.triggerRuns.lookup runId, s)
  | .storeTriggerRun run, s =>
      ((), { s with triggerRuns := s.triggerRuns.insert run.triggerRunId run })
  | .getEvent eventId, s => (s.events.lookup eventId, s)

/-- All calls on a trigger store. -/
def execStore (env : TriggerEnv) :
    (c : outboxStore.Op) → MemTriggerStore → outboxStore.Ret c × MemTriggerStore
  | .inl c, s => exec env c s
  | .inr c, s => execOutbox env c s

end MemTriggerStore

/-- An operation of the manager, or the completion of a run. -/
inductive OutboxTask where
  | manager (task : TriggerTask)
  | complete (runId : TriggerRunId) (id : InvocationId)
deriving DecidableEq

def OutboxTask.program (croner : Croner) (codec : Codec) : OutboxTask → Outbox Unit
  | manager task => (task.program croner codec).inl
  | complete runId id => completeTriggerRun runId id

def outboxMachine (croner : Croner) (codec : Codec) :
    Machine outboxStore MemTriggerStore TriggerEnv OutboxTask where
  exec := MemTriggerStore.execStore
  program := OutboxTask.program croner codec

/-! ## The discipline -/

/-- The record has all links of the other one. -/
structure Extends (old new : EventRecord) : Prop where
  triggered : old.triggeredInvocationIds ⊆ new.triggeredInvocationIds
  matched : old.matchedConditionIds ⊆ new.matchedConditionIds
  valid : old.validConditionIds ⊆ new.validConditionIds

theorem Extends.refl (event : EventRecord) : Extends event event :=
  ⟨List.Subset.refl _, List.Subset.refl _, List.Subset.refl _⟩

theorem Extends.trans {a b c : EventRecord} (h : Extends a b) (h' : Extends b c) : Extends a c :=
  ⟨List.Subset.trans h.triggered h'.triggered, List.Subset.trans h.matched h'.matched,
    List.Subset.trans h.valid h'.valid⟩

/-- What one operation has seen: event records it stored or read (newest first), valid
conditions it recorded, the snapshot of an evaluation, and the runs a completion found. -/
structure Sighting where
  task : OutboxTask
  seen : List EventRecord := []
  recorded : List ValidCondition := []
  snapshot : List ValidCondition := []
  found : List TriggerRun := []

/-- The record of an event that the operation holds. -/
def Sighting.held (g : Sighting) (eventId : String) : Option EventRecord :=
  g.seen.find? fun event => event.eventId = eventId

/-- The event of a valid condition, if it comes from one. -/
def eventOf (vc : ValidCondition) : Option String :=
  match vc.context with
  | .event ctx => some ctx.eventId
  | _ => none

/-- The link that a completion makes. -/
def Sighting.Linked (g : Sighting) (id : InvocationId) (eventId : String) : Prop :=
  ∃ event ∈ g.seen, event.eventId = eventId ∧ id ∈ event.triggeredInvocationIds

/-- The links that an emission makes. -/
def Sighting.Noted (g : Sighting) (vc : ValidCondition) : Prop :=
  ∃ event ∈ g.seen, eventOf vc = some event.eventId ∧
    vc.conditionId ∈ event.matchedConditionIds ∧ vc.validConditionId ∈ event.validConditionIds

def Sighting.next : (c : outboxStore.Op) → outboxStore.Ret c → Sighting → Sighting
  | .inl (.storeEvent event), _, g => { g with seen := event :: g.seen }
  | .inl (.recordValidCondition vc), _, g => { g with recorded := vc :: g.recorded }
  | .inl .getValidConditions, valid, g => { g with snapshot := valid }
  | .inr (.getTriggerRun _), run, g => { g with found := run.toList ++ g.found }
  | .inr (.getEvent _), event, g => { g with seen := event.toList ++ g.seen }
  | _, _, g => g

/-- An operation stores only extensions of the record it holds; what it records or claims
goes back to events it has seen, or that somebody recorded a condition for. -/
def provenance : Discipline outboxStore OutboxTask Sighting where
  start task := { task := task }
  next := Sighting.next
  pre
    | .inl (.storeEvent event), g => ∀ old, g.held event.eventId = some old → Extends old event
    | .inl (.recordValidCondition vc), g => ∀ eventId, eventOf vc = some eventId →
        ∃ event ∈ g.seen, event.eventId = eventId
    | .inl (.claimTriggerRunsWithRecords records _), g => ∀ record ∈ records,
        ∀ eventId ∈ TriggerRun.eventIds record, ∃ vc ∈ g.snapshot, eventOf vc = some eventId
    | .inr (.storeTriggerRun run), g => ∃ old ∈ g.found, TriggerRun.eventIds run = TriggerRun.eventIds old
    | .inr (.getEvent eventId), g => ∃ run ∈ g.found, eventId ∈ TriggerRun.eventIds run
    | _, _ => True
  resp
    | .inr (.getEvent eventId), _, answer => ∃ event, answer = some event ∧ event.eventId = eventId
    | _, _, _ => True

/-- What an operation has linked when it is over. -/
def Sighting.Complete (g : Sighting) : Prop :=
  match g.task with
  | .complete _ id => ∀ run ∈ g.found, ∀ eventId ∈ TriggerRun.eventIds run, g.Linked id eventId
  | .manager (.event _ _) => ∀ vc ∈ g.recorded, g.Noted vc
  | .manager _ => True

section Programs

variable {g : Sighting}

theorem linkEvent_obeys {id : InvocationId} {eventId : String}
    (hfound : ∃ run ∈ g.found, eventId ∈ TriggerRun.eventIds run) :
    provenance.Obeys (linkEvent id eventId)
      (fun _ g' => g'.task = g.task ∧ g'.found = g.found ∧ g.seen ⊆ g'.seen ∧
        g'.Linked id eventId) g := by
  refine ⟨hfound, ?_⟩
  rintro _ ⟨event, rfl, hevent⟩
  change provenance.Obeys (if id ∈ event.triggeredInvocationIds then pure ()
    else manage (.storeEvent
      { event with triggeredInvocationIds := event.triggeredInvocationIds ++ [id] })) _ _
  by_cases hlinked : id ∈ event.triggeredInvocationIds
  · rw [if_pos hlinked]
    exact ⟨rfl, rfl, List.subset_cons_self _ _, event, List.mem_cons_self, hevent, hlinked⟩
  · rw [if_neg hlinked]
    refine ⟨?_, fun _ _ => ?_⟩
    · intro old hold
      have hself : old = event := by
        simpa [provenance, Sighting.next, Sighting.held] using hold.symm
      subst hself
      exact ⟨List.subset_append_left _ _, List.Subset.refl _, List.Subset.refl _⟩
    · refine ⟨rfl, rfl, ?_, _, List.mem_cons_self, hevent, by simp⟩
      exact List.Subset.trans (List.subset_cons_self _ _) (List.subset_cons_self _ _)

theorem linkEvents_obeys {id : InvocationId} (eventIds : List String)
    (hfound : ∀ eventId ∈ eventIds, ∃ run ∈ g.found, eventId ∈ TriggerRun.eventIds run) :
    provenance.Obeys (linkEvents id eventIds)
      (fun _ g' => g'.task = g.task ∧ g'.found = g.found ∧ g.seen ⊆ g'.seen ∧
        ∀ eventId ∈ eventIds, g'.Linked id eventId) g := by
  induction eventIds generalizing g with
  | nil => exact ⟨rfl, rfl, List.Subset.refl _, by simp⟩
  | cons eventId rest ih =>
      unfold linkEvents
      refine (linkEvent_obeys (hfound eventId List.mem_cons_self)).bind ?_
      rintro _ g₁ ⟨htask₁, hfound₁, hseen₁, hlinked₁⟩
      refine (ih ?_).mono ?_
      · intro other hother
        rw [hfound₁]
        exact hfound other (List.mem_cons_of_mem _ hother)
      · rintro _ g₂ ⟨htask₂, hfound₂, hseen₂, hlinked₂⟩
        refine ⟨htask₂.trans htask₁, hfound₂.trans hfound₁, List.Subset.trans hseen₁ hseen₂, ?_⟩
        intro other hother
        rcases List.mem_cons.mp hother with rfl | hother
        · obtain ⟨event, hmem, hevent⟩ := hlinked₁
          exact ⟨event, hseen₂ hmem, hevent⟩
        · exact hlinked₂ other hother

theorem completeTriggerRun_obeys (runId : TriggerRunId) (id : InvocationId) :
    provenance.Obeys (completeTriggerRun runId id) (fun _ g => g.Complete)
      (provenance.start (.complete runId id)) := by
  refine ⟨trivial, fun answer _ => ?_⟩
  cases answer with
  | none =>
      intro run hrun
      simp [provenance, Sighting.next] at hrun
  | some run =>
      refine ⟨trivial, fun now _ => ?_⟩
      refine ⟨⟨run, List.mem_cons_self, rfl⟩, fun _ _ => ?_⟩
      refine (linkEvents_obeys (TriggerRun.eventIds run) ?_).mono ?_
      · intro eventId heventId
        exact ⟨run, List.mem_cons_self, heventId⟩
      · rintro _ g ⟨htask, hfound, -, hlinked⟩
        unfold Sighting.Complete
        rw [htask]
        intro other hother
        rw [hfound] at hother
        obtain rfl : other = run := by simpa [provenance, Sighting.next] using hother
        exact hlinked

variable (codec : Codec)

/-- Recording conditions for an event that the operation has seen. -/
theorem recordSatisfied_provenance (ctx : ConditionContext)
    (conditions : List (ConditionId × TriggerCondition))
    (hctx : ∀ event, ctx = .event event → ∃ record ∈ g.seen, record.eventId = event.eventId) :
    provenance.left.Obeys (recordSatisfied codec ctx conditions)
      (fun valid g' => g'.task = g.task ∧ g'.seen = g.seen ∧
        (∀ vc ∈ g'.recorded, vc ∈ valid ∨ vc ∈ g.recorded) ∧ ∀ vc ∈ valid, vc.context = ctx)
      g := by
  induction conditions generalizing g with
  | nil => exact ⟨rfl, rfl, fun vc hvc => .inr hvc, by simp⟩
  | cons entry rest ih =>
      obtain ⟨condId, cond⟩ := entry
      unfold recordSatisfied
      by_cases hsatisfied : cond.isSatisfiedBy codec ctx = true
      · rw [if_pos hsatisfied]
        refine obeys_store_bind.mpr ⟨?_, fun _ _ => ?_⟩
        · intro eventId heventId
          cases ctx with
          | event event =>
              obtain ⟨record, hrecord, hid⟩ := hctx event rfl
              have heq : event.eventId = eventId := Option.some.inj heventId
              exact ⟨record, hrecord, hid.trans heq⟩
          | _ => cases heventId
        · have hrest := ih (g := { g with recorded := ValidCondition.new codec condId ctx :: g.recorded })
            hctx
          refine hrest.bind ?_
          rintro others g' ⟨htask, hseen, hrecorded, hcontext⟩
          refine ⟨htask, hseen, ?_, ?_⟩
          · intro vc hvc
            rcases hrecorded vc hvc with hvc | hvc
            · exact .inl (List.mem_cons_of_mem _ hvc)
            · rcases List.mem_cons.mp hvc with rfl | hvc
              · exact .inl List.mem_cons_self
              · exact .inr hvc
          · intro vc hvc
            rcases List.mem_cons.mp hvc with rfl | hvc
            · rfl
            · exact hcontext vc hvc
      · rw [if_neg hsatisfied]
        exact ih hctx

theorem emitEvent_provenance (eventCode : String) (payload : JsonValue) :
    provenance.left.Obeys (emitEvent codec eventCode payload) (fun _ g => g.Complete)
      (provenance.start (.manager (.event eventCode payload))) := by
  refine obeys_store_bind.mpr ⟨trivial, fun eventId _ => ?_⟩
  refine obeys_store_bind.mpr ⟨trivial, fun now _ => ?_⟩
  refine obeys_store_bind.mpr ⟨fun old hold => (by cases hold), fun _ _ => ?_⟩
  refine obeys_store_bind.mpr ⟨trivial, fun conditions _ => ?_⟩
  unfold matchEvent
  refine (recordSatisfied_provenance codec _ conditions ?_).bind ?_
  · intro event hevent
    cases hevent
    exact ⟨_, List.mem_cons_self, rfl⟩
  · rintro valid g ⟨htask, hseen, hrecorded, hcontext⟩
    have hvalid : ∀ vc ∈ g.recorded, vc ∈ valid := by
      intro vc hvc
      rcases hrecorded vc hvc with hvc | hvc
      · exact hvc
      · cases hvc
    have htask : g.task = .manager (.event eventCode payload) := htask
    dsimp only
    split
    · refine obeys_store_bind.mpr ⟨?_, fun _ _ => ?_⟩
      · -- the record in hand is the one without matches
        intro old hold
        have heq : old = ⟨eventId, eventCode, payload, now.instant, [], [], []⟩ := by
          have hheld := hold
          simp only [Sighting.held, hseen] at hheld
          simpa [provenance, Discipline.left, Sighting.next] using hheld.symm
        subst heq
        exact ⟨List.nil_subset _, List.nil_subset _, List.nil_subset _⟩
      · rw [Discipline.obeys_pure]
        unfold Sighting.Complete
        simp only [provenance, Discipline.left, Sighting.next, htask]
        intro vc hvc
        have hvc := hvalid vc hvc
        refine ⟨_, List.mem_cons_self, ?_, List.mem_map_of_mem hvc, List.mem_map_of_mem hvc⟩
        simp [eventOf, hcontext vc hvc]
    · rename_i hmatched
      rw [Discipline.obeys_pure]
      unfold Sighting.Complete
      simp only [htask]
      intro vc hvc
      have hvc := hvalid vc hvc
      simp only [EventRecord.isMatched, Bool.not_eq_true, Bool.not_eq_false',
        List.isEmpty_iff, List.map_eq_nil_iff] at hmatched
      rw [hmatched] at hvc
      cases hvc

theorem eventId_participant (vc : ValidCondition) :
    (participantFromValidCondition codec vc).eventId = eventOf vc := by
  unfold participantFromValidCondition eventOf
  cases vc.context <;> rfl

/-- The events of a planned run are events of the snapshot. -/
theorem eventIds_candidatesOf {now : Timestamp} {valid : List ValidCondition}
    {trigger : TriggerDefinitionDTO} {run : TriggerRun × TriggerExecution}
    (hrun : run ∈ candidatesOf codec now valid trigger) :
    ∀ eventId ∈ TriggerRun.eventIds run.1, ∃ vc ∈ valid, eventOf vc = some eventId := by
  have hplanned : ∀ (runId : TriggerRunId) (selected : List ValidCondition), selected ⊆ valid →
      ∀ eventId ∈ TriggerRun.eventIds (plannedRun codec now runId trigger selected).1,
        ∃ vc ∈ valid, eventOf vc = some eventId := by
    intro runId selected hselected eventId heventId
    obtain ⟨participant, hmem, hid⟩ := List.mem_filterMap.mp heventId
    obtain ⟨vc, hvc, rfl⟩ := List.mem_map.mp hmem
    rw [eventId_participant] at hid
    exact ⟨vc, hselected hvc, hid⟩
  have hby : ∀ conditionId, byCondition valid conditionId ⊆ valid :=
    fun conditionId => List.filter_subset_self _
  unfold candidatesOf at hrun
  split at hrun
  · split at hrun
    · obtain rfl := List.mem_singleton.mp hrun
      refine hplanned _ _ ?_
      intro vc hvc
      obtain ⟨conditionId, -, hhead⟩ := List.mem_filterMap.mp hvc
      exact hby conditionId (List.mem_of_mem_head? hhead)
    · cases hrun
  · obtain ⟨conditionId, -, hmem⟩ := List.mem_flatMap.mp hrun
    obtain ⟨vc, hvc, rfl⟩ := List.mem_map.mp hmem
    refine hplanned _ _ ?_
    intro other hother
    obtain rfl := List.mem_singleton.mp hother
    exact hby conditionId hvc

/-- What an evaluation plans comes from its snapshot. -/
theorem planRuns_provenance :
    provenance.left.Obeys (planRuns codec)
      (fun plan g' => g'.task = g.task ∧ ∀ run ∈ plan.1.map Prod.fst,
        ∀ eventId ∈ TriggerRun.eventIds run, ∃ vc ∈ g'.snapshot, eventOf vc = some eventId) g := by
  refine obeys_store_bind.mpr ⟨trivial, fun valid _ => ?_⟩
  split
  · exact ⟨rfl, by simp⟩
  · refine obeys_store_bind.mpr ⟨trivial, fun keys _ => ?_⟩
    refine (Discipline.Obeys.of_uses (uses_affectedTriggers (fun _ => ?_) [] keys) _).bind ?_
    · exact fun g => ⟨trivial, fun _ => rfl⟩
    · rintro triggers _ rfl
      refine obeys_store_bind.mpr ⟨trivial, fun order _ => ?_⟩
      refine obeys_store_bind.mpr ⟨trivial, fun now _ => ?_⟩
      refine ⟨rfl, ?_⟩
      intro run hrun
      obtain ⟨planned, hplanned, rfl⟩ := List.mem_map.mp hrun
      obtain ⟨trigger, -, hcandidate⟩ := List.mem_flatMap.mp hplanned
      exact eventIds_candidatesOf codec hcandidate

theorem evaluateTriggerRuns_provenance :
    provenance.left.Obeys (evaluateTriggerRuns codec) (fun _ g => g.Complete)
      (provenance.start (.manager .evaluate)) := by
  rw [evaluateTriggerRuns_eq]
  refine (planRuns_provenance codec).bind ?_
  rintro plan g ⟨htask, hplan⟩
  have htask : g.task = .manager .evaluate := htask
  split
  · rw [Discipline.obeys_pure, Sighting.Complete, htask]
    trivial
  · refine obeys_store_bind.mpr ⟨hplan, fun _ _ => ?_⟩
    rw [Discipline.obeys_pure, Sighting.Complete]
    simp [provenance, Discipline.left, Sighting.next, htask]

/-- A report of something that is no event. -/
theorem report_provenance {taskId : TaskId} {ctx : ConditionContext}
    (hctx : ∀ event, ctx ≠ .event event) :
    provenance.left.Obeys (evaluateTaskConditions codec taskId ctx)
      (fun _ g' => g'.task = g.task) g := by
  refine obeys_store_bind.mpr ⟨trivial, fun conditions _ => ?_⟩
  refine Discipline.Obeys.mono (recordSatisfied_provenance codec ctx conditions ?_) ?_
  · intro event hevent
    exact absurd hevent (hctx event)
  · rintro _ g' ⟨htask, -⟩
    exact htask

theorem program_obeys_provenance (croner : Croner) (task : OutboxTask) :
    provenance.Obeys (task.program croner codec) (fun _ g => g.Complete)
      (provenance.start task) := by
  have hcomplete : ∀ (task : TriggerTask) (g : Sighting),
      (∀ code payload, task ≠ .event code payload) → g.task = .manager task → g.Complete := by
    intro task g hevent htask
    unfold Sighting.Complete
    rw [htask]
    cases task with
    | event code payload => exact absurd rfl (hevent code payload)
    | _ => trivial
  cases task with
  | complete runId id => exact completeTriggerRun_obeys runId id
  | manager task =>
      rw [OutboxTask.program, Discipline.obeys_inl]
      cases task with
      | statusChange ctx | result ctx | failure ctx =>
          refine Discipline.Obeys.toUnit (Discipline.Obeys.mono
            (report_provenance codec (by simp)) fun _ g htask => ?_)
          exact hcomplete _ g (by simp) htask
      | event eventCode payload =>
          exact Discipline.Obeys.toUnit (emitEvent_provenance codec eventCode payload)
      | cron =>
          have huses : (evaluateCronConditions croner codec).Uses provenance.left.Answers
              (provenance.left.Keeps fun g => g.task = .manager .cron) := by
            apply uses_evaluateCronConditions
            · exact fun g h => ⟨trivial, fun _ _ => h⟩
            · exact fun g h => ⟨trivial, fun _ _ => h⟩
            · exact fun _ g h => ⟨trivial, fun _ _ => h⟩
            · exact fun _ _ _ g h => ⟨trivial, fun _ _ => h⟩
            · exact fun _ _ g h => ⟨fun eventId heventId => (by cases heventId), fun _ _ => h⟩
          refine Discipline.Obeys.toUnit (Discipline.Obeys.mono
            (Discipline.Obeys.of_keeps huses rfl) fun _ g htask => ?_)
          exact hcomplete _ g (by simp) htask
      | evaluate => exact Discipline.Obeys.toUnit (evaluateTriggerRuns_provenance codec)

end Programs

/-! ## The invariant -/

/-- Events are stored under their ids; every event that a valid condition or a run goes back
to is stored; and what an operation has seen of an event is part of its record. -/
structure LinksKept (s : MemTriggerStore) (books : List Sighting) : Prop where
  keyed : ∀ eventId event, s.events.lookup eventId = some event → event.eventId = eventId
  valid : ∀ key vc, s.validConditions.lookup key = some vc → ∀ eventId, eventOf vc = some eventId →
    (s.events.lookup eventId).isSome
  runs : ∀ runId run, s.triggerRuns.lookup runId = some run → ∀ eventId ∈ TriggerRun.eventIds run,
    (s.events.lookup eventId).isSome
  snapshot : ∀ g ∈ books, ∀ vc ∈ g.snapshot, ∀ eventId, eventOf vc = some eventId →
    (s.events.lookup eventId).isSome
  found : ∀ g ∈ books, ∀ run ∈ g.found, ∀ eventId ∈ TriggerRun.eventIds run,
    (s.events.lookup eventId).isSome
  seen : ∀ g ∈ books, ∀ event ∈ g.seen, ∃ stored, s.events.lookup event.eventId = some stored ∧
    Extends event stored

/-- The record of an event is stored over the one the operation holds, or over the same. -/
def uncontested : Guard outboxStore MemTriggerStore OutboxTask where
  start _ _ := True
  call s i c := match c with
    | .inl (.storeEvent event) => ∀ t ∈ s.threads[i]?,
        s.shared.events.lookup event.eventId = (provenance.book t).held event.eventId ∨
          s.shared.events.lookup event.eventId = some event
    | _ => True

section Invariant

variable {s s' : MemTriggerStore} {before after : List Sighting} {g g' : Sighting}

/-- A call that stores no event. -/
theorem LinksKept.of_events_eq (h : LinksKept s (before ++ g :: after))
    (hevents : s'.events = s.events)
    (hvalid : ∀ key vc, s'.validConditions.lookup key = some vc → ∀ eventId,
      eventOf vc = some eventId → (s.events.lookup eventId).isSome)
    (hruns : ∀ runId run, s'.triggerRuns.lookup runId = some run →
      ∀ eventId ∈ TriggerRun.eventIds run, (s.events.lookup eventId).isSome)
    (hsnapshot : ∀ vc ∈ g'.snapshot, ∀ eventId, eventOf vc = some eventId →
      (s.events.lookup eventId).isSome)
    (hfound : ∀ run ∈ g'.found, ∀ eventId ∈ TriggerRun.eventIds run,
      (s.events.lookup eventId).isSome)
    (hseen : ∀ event ∈ g'.seen, ∃ stored, s.events.lookup event.eventId = some stored ∧
      Extends event stored) :
    LinksKept s' (before ++ g' :: after) := by
  constructor
  · rw [hevents]
    exact h.keyed
  · rw [hevents]
    exact hvalid
  · rw [hevents]
    exact hruns
  · rw [hevents]
    exact forall_replace h.snapshot (fun _ h => h) hsnapshot
  · rw [hevents]
    exact forall_replace h.found (fun _ h => h) hfound
  · rw [hevents]
    exact forall_replace h.seen (fun _ h => h) hseen

/-- A record that extends the stored one takes its place. -/
theorem LinksKept.storeEvent (h : LinksKept s (before ++ g :: after)) {event : EventRecord}
    (hextends : ∀ stored, s.events.lookup event.eventId = some stored → Extends stored event) :
    LinksKept { s with events := s.events.insert event.eventId event }
      (before ++ { g with seen := event :: g.seen } :: after) := by
  have hsome : ∀ eventId, (s.events.lookup eventId).isSome →
      ((s.events.insert event.eventId event).lookup eventId).isSome := by
    intro eventId hstored
    by_cases hid : eventId = event.eventId
    · subst hid
      simp
    · rwa [AList.lookup_insert_ne hid]
  have hseen : ∀ old stored, s.events.lookup old.eventId = some stored → Extends old stored →
      ∃ stored', (s.events.insert event.eventId event).lookup old.eventId = some stored' ∧
        Extends old stored' := by
    intro old stored hstored hold
    by_cases hid : old.eventId = event.eventId
    · rw [hid] at hstored ⊢
      exact ⟨event, AList.lookup_insert _, hold.trans (hextends stored hstored)⟩
    · rw [AList.lookup_insert_ne hid]
      exact ⟨stored, hstored, hold⟩
  have hg : g ∈ before ++ g :: after := by simp
  constructor
  · intro eventId stored hstored
    by_cases hid : eventId = event.eventId
    · subst hid
      rw [AList.lookup_insert] at hstored
      rw [Option.some.inj hstored]
    · rw [AList.lookup_insert_ne hid] at hstored
      exact h.keyed eventId stored hstored
  · intro key vc hvc eventId heventId
    exact hsome _ (h.valid key vc hvc eventId heventId)
  · intro runId run hrun eventId heventId
    exact hsome _ (h.runs runId run hrun eventId heventId)
  · refine forall_replace h.snapshot
      (fun b hb vc hvc eventId heventId => hsome _ (hb vc hvc eventId heventId)) ?_
    exact fun vc hvc eventId heventId => hsome _ (h.snapshot g hg vc hvc eventId heventId)
  · refine forall_replace h.found
      (fun b hb run hrun eventId heventId => hsome _ (hb run hrun eventId heventId)) ?_
    exact fun run hrun eventId heventId => hsome _ (h.found g hg run hrun eventId heventId)
  · have hcarry : ∀ b : Sighting, (∀ old ∈ b.seen, ∃ stored,
        s.events.lookup old.eventId = some stored ∧ Extends old stored) →
        ∀ old ∈ b.seen, ∃ stored',
          (s.events.insert event.eventId event).lookup old.eventId = some stored' ∧
            Extends old stored' := by
      intro b hb old hold
      obtain ⟨stored, hstored, hext⟩ := hb old hold
      exact hseen old stored hstored hext
    refine forall_replace h.seen hcarry ?_
    intro old hold
    rcases List.mem_cons.mp hold with rfl | hold
    · exact ⟨_, AList.lookup_insert _, Extends.refl _⟩
    · exact hcarry g (h.seen g hg) old hold

/-- A call that stores no event and no new run or valid condition. -/
theorem LinksKept.quiet (h : LinksKept s (before ++ g :: after))
    (hevents : s'.events = s.events)
    (hvalid : ∀ key vc, s'.validConditions.lookup key = some vc →
      s.validConditions.lookup key = some vc)
    (hruns : s'.triggerRuns = s.triggerRuns) (hsnapshot : g'.snapshot = g.snapshot)
    (hfound : g'.found = g.found) (hseen : g'.seen = g.seen) :
    LinksKept s' (before ++ g' :: after) := by
  have hg : g ∈ before ++ g :: after := by simp
  apply h.of_events_eq hevents
  · intro key vc hvc
    exact h.valid key vc (hvalid key vc hvc)
  · rw [hruns]
    exact h.runs
  · rw [hsnapshot]
    exact h.snapshot g hg
  · rw [hfound]
    exact h.found g hg
  · rw [hseen]
    exact h.seen g hg

/-- A recorded condition goes back to an event that its operation has stored. -/
theorem LinksKept.record (h : LinksKept s (before ++ g :: after)) {vc : ValidCondition}
    (hvc : ∀ eventId, eventOf vc = some eventId → ∃ event ∈ g.seen, event.eventId = eventId) :
    LinksKept (s.recordValidCondition vc)
      (before ++ { g with recorded := vc :: g.recorded } :: after) := by
  have hg : g ∈ before ++ g :: after := by simp
  refine h.of_events_eq rfl ?_ h.runs (h.snapshot g hg) (h.found g hg) (h.seen g hg)
  intro key stored hstored eventId heventId
  rw [MemTriggerStore.lookup_record] at hstored
  split at hstored
  · obtain rfl := Option.some.inj hstored
    obtain ⟨event, hevent, rfl⟩ := hvc eventId heventId
    obtain ⟨kept, hkept, -⟩ := h.seen g hg event hevent
    rw [hkept]
    rfl
  · exact h.valid key stored hstored eventId heventId

/-- The snapshot of an evaluation is made of stored conditions. -/
theorem LinksKept.takeSnapshot (h : LinksKept s (before ++ g :: after)) (order : List (List Char)) :
    LinksKept s (before ++ { g with snapshot := s.getValidConditions order } :: after) := by
  have hg : g ∈ before ++ g :: after := by simp
  refine h.of_events_eq rfl h.valid h.runs ?_ (h.found g hg) (h.seen g hg)
  intro vc hvc
  obtain ⟨key, -, hlookup⟩ := List.mem_filterMap.mp hvc
  exact h.valid key vc hlookup

/-- Claimed runs go back to events of the snapshot. -/
theorem LinksKept.claim (h : LinksKept s (before ++ g :: after)) (now : Timestamp)
    {records : List TriggerRun} (consumed : List (List Char))
    (hrecords : ∀ record ∈ records, ∀ eventId ∈ TriggerRun.eventIds record,
      ∃ vc ∈ g.snapshot, eventOf vc = some eventId) :
    LinksKept (s.claimTriggerRunsWithRecords now records consumed).2 (before ++ g :: after) := by
  have hg : g ∈ before ++ g :: after := by simp
  have hold : ∀ runId run,
      (s.claimTriggerRunsWithRecords now records consumed).2.triggerRuns.lookup runId = some run →
        s.triggerRuns.lookup runId = some run ∨ run ∈ records := by
    intro runId run hrun
    exact MemTriggerStore.lookup_claimRuns now records hrun
  obtain ⟨claims, runs, heq⟩ := MemTriggerStore.claimRuns_eq now records s
  have hstore : (s.claimTriggerRunsWithRecords now records consumed).2 =
      ({ s with triggerRunClaims := claims, triggerRuns := runs } : MemTriggerStore).consume
        consumed := by
    show ((MemTriggerStore.claimRuns now s records).2).consume consumed = _
    rw [heq]
  apply h.of_events_eq
  · rw [hstore]
    rfl
  · intro key vc hvc
    rw [hstore, MemTriggerStore.lookup_consume] at hvc
    split at hvc
    · cases hvc
    · exact h.valid key vc hvc
  · intro runId run hrun eventId heventId
    rcases hold runId run hrun with hrun | hrun
    · exact h.runs runId run hrun eventId heventId
    · obtain ⟨vc, hvc, hevent⟩ := hrecords run hrun eventId heventId
      exact h.snapshot g hg vc hvc eventId hevent
  · exact h.snapshot g hg
  · exact h.found g hg
  · exact h.seen g hg

/-- A completion reads a stored run. -/
theorem LinksKept.find (h : LinksKept s (before ++ g :: after)) (runId : TriggerRunId) :
    LinksKept s
      (before ++ { g with found := (s.triggerRuns.lookup runId).toList ++ g.found } :: after) := by
  have hg : g ∈ before ++ g :: after := by simp
  refine h.of_events_eq rfl h.valid h.runs (h.snapshot g hg) ?_ (h.seen g hg)
  intro run hrun
  rcases List.mem_append.mp hrun with hrun | hrun
  · exact h.runs runId run (Option.mem_toList.mp hrun)
  · exact h.found g hg run hrun

/-- A run is stored again, with the events it had. -/
theorem LinksKept.storeRun (h : LinksKept s (before ++ g :: after)) {run : TriggerRun}
    (hrun : ∃ old ∈ g.found, TriggerRun.eventIds run = TriggerRun.eventIds old) :
    LinksKept { s with triggerRuns := s.triggerRuns.insert run.triggerRunId run }
      (before ++ g :: after) := by
  have hg : g ∈ before ++ g :: after := by simp
  refine h.of_events_eq rfl h.valid ?_ (h.snapshot g hg) (h.found g hg) (h.seen g hg)
  intro runId stored hstored
  by_cases hid : runId = run.triggerRunId
  · subst hid
    rw [AList.lookup_insert] at hstored
    obtain rfl := Option.some.inj hstored
    obtain ⟨old, hold, heq⟩ := hrun
    rw [heq]
    exact h.found g hg old hold
  · rw [AList.lookup_insert_ne hid] at hstored
    exact h.runs runId stored hstored

/-- A completion reads the record of an event, which is there. -/
theorem LinksKept.see (h : LinksKept s (before ++ g :: after)) {eventId : String}
    (hfound : ∃ run ∈ g.found, eventId ∈ TriggerRun.eventIds run) :
    (∃ event, s.events.lookup eventId = some event ∧ event.eventId = eventId) ∧
      LinksKept s
        (before ++ { g with seen := (s.events.lookup eventId).toList ++ g.seen } :: after) := by
  have hg : g ∈ before ++ g :: after := by simp
  obtain ⟨run, hrun, heventId⟩ := hfound
  obtain ⟨event, hevent⟩ := Option.isSome_iff_exists.mp (h.found g hg run hrun eventId heventId)
  have hkey : event.eventId = eventId := h.keyed eventId event hevent
  refine ⟨⟨event, hevent, hkey⟩, ?_⟩
  refine h.of_events_eq rfl h.valid h.runs (h.snapshot g hg) (h.found g hg) ?_
  intro old hold
  rcases List.mem_append.mp hold with hold | hold
  · rw [hevent] at hold
    obtain rfl : old = event := by simpa using hold
    rw [hkey]
    exact ⟨old, hevent, Extends.refl _⟩
  · exact h.seen g hg old hold

end Invariant

section Runs

variable (croner : Croner) (codec : Codec) (conditions : List TriggerCondition)
  (triggers : List TriggerDefinitionDTO)

/-- A registered trigger store, with nothing going on. -/
def outboxIdle : System outboxStore MemTriggerStore OutboxTask :=
  ⟨MemTriggerStore.withTriggers codec conditions triggers, []⟩

/-- **One call keeps the links.** -/
theorem LinksKept.call {init s : System outboxStore MemTriggerStore OutboxTask} {i : Nat}
    (env : TriggerEnv) {t : Thread outboxStore OutboxTask} {c : outboxStore.Op}
    {before after : List Sighting}
    (hturn : provenance.Turn (outboxMachine croner codec) uncontested init Sighting.Complete s i t
      c before after)
    (h : LinksKept s.shared (before ++ provenance.book t :: after)) :
    provenance.resp c (provenance.book t) (MemTriggerStore.execStore env c s.shared).1 ∧
      LinksKept (MemTriggerStore.execStore env c s.shared).2
        (before ++ provenance.next c (MemTriggerStore.execStore env c s.shared).1
          (provenance.book t) :: after) := by
  have hpre := hturn.permitted
  cases c with
  | inl c =>
      refine ⟨trivial, ?_⟩
      cases c
      case storeEvent event =>
        -- what is written extends what is held, and that is what is stored
        apply h.storeEvent
        intro stored hstored
        rcases hturn.allowed t hturn.thread with hheld | hsame
        · exact hpre stored (hheld.symm.trans hstored)
        · obtain rfl := Option.some.inj (hstored.symm.trans hsame)
          exact Extends.refl _
      case recordValidCondition vc => exact h.record hpre
      case getValidConditions => exact h.takeSnapshot env.order
      case claimTriggerRunsWithRecords records consumed =>
        exact h.claim env.clock.instant consumed hpre
      case storeCronExecution condId time last =>
        simp only [MemTriggerStore.execStore, MemTriggerStore.exec,
          MemTriggerStore.storeCronExecution]
        split
        · exact h.quiet rfl (fun _ _ hvc => hvc) rfl rfl rfl rfl
        · exact h
      all_goals exact h
  | inr c =>
      cases c with
      | claimTriggerRun runId =>
          refine ⟨trivial, ?_⟩
          simp only [MemTriggerStore.execStore, MemTriggerStore.execOutbox]
          split
          · exact h
          · exact h.quiet rfl (fun _ _ hvc => hvc) rfl rfl rfl rfl
      | clearValidConditions ids =>
          refine ⟨trivial, h.quiet rfl ?_ rfl rfl rfl rfl⟩
          intro key vc hvc
          simp only [MemTriggerStore.execStore, MemTriggerStore.execOutbox,
            MemTriggerStore.lookup_consume] at hvc
          split at hvc
          · cases hvc
          · exact hvc
      | getTriggerRun runId => exact ⟨trivial, h.find runId⟩
      | storeTriggerRun run => exact ⟨trivial, h.storeRun hpre⟩
      | getEvent eventId => exact h.see hpre

/-- A run that a completion found. -/
def foundRun? : Event outboxStore → Option TriggerRun
  | ⟨.inr (.getTriggerRun _), run⟩ => run
  | _ => none

/-- A valid condition that a manager recorded. -/
def notedCondition? : Event outboxStore → Option ValidCondition
  | ⟨.inl (.recordValidCondition vc), _⟩ => some vc
  | _ => none

@[simp] theorem Sighting.next_task (c : outboxStore.Op) (r : outboxStore.Ret c) (g : Sighting) :
    (Sighting.next c r g).task = g.task := by
  unfold Sighting.next
  split <;> rfl

/-- The book of an operation has what its log says. -/
theorem provenance_read (task : OutboxTask) (log : List (Event outboxStore)) :
    (provenance.read task log).task = task ∧
      (provenance.read task log).found = log.filterMap foundRun? ∧
      (provenance.read task log).recorded = log.filterMap notedCondition? := by
  induction log with
  | nil => exact ⟨rfl, rfl, rfl⟩
  | cons e log ih =>
      obtain ⟨htask, hfound, hrecorded⟩ := ih
      rw [Monitor.read_cons]
      refine ⟨(Sighting.next_task _ _ _).trans htask, ?_⟩
      obtain ⟨c, r⟩ := e
      rcases c with c | c
      · cases c
        case recordValidCondition vc =>
          refine ⟨hfound, ?_⟩
          show vc :: (provenance.read task log).recorded = _
          rw [hrecorded]
          rfl
        all_goals exact ⟨hfound, hrecorded⟩
      · cases c
        case getTriggerRun runId =>
          refine ⟨?_, hrecorded⟩
          show Option.toList r ++ (provenance.read task log).found = _
          rw [hfound]
          cases r <;> rfl
        all_goals exact ⟨hfound, hrecorded⟩

/-- What the stored records say: a finished completion is linked to the events of the run it
found, and the record of a finished emission has what it recorded. -/
structure ProvenanceKept (s : System outboxStore MemTriggerStore OutboxTask) : Prop where
  completed : ∀ t ∈ s.threads, t.next? = none → ∀ runId id, t.task = .complete runId id →
    ∀ run ∈ t.log.filterMap foundRun?, ∀ eventId ∈ TriggerRun.eventIds run,
      ∃ event, s.shared.events.lookup eventId = some event ∧ id ∈ event.triggeredInvocationIds
  emitted : ∀ t ∈ s.threads, t.next? = none → ∀ code payload,
    t.task = .manager (.event code payload) → ∀ vc ∈ t.log.filterMap notedCondition?,
      ∃ eventId event, eventOf vc = some eventId ∧ s.shared.events.lookup eventId = some event ∧
        vc.conditionId ∈ event.matchedConditionIds ∧
        vc.validConditionId ∈ event.validConditionIds

theorem linksKept_upheld :
    provenance.Upheld Sighting.Complete LinksKept (outboxMachine croner codec) uncontested
      (outboxIdle codec conditions triggers) where
  program _ task _ := program_obeys_provenance codec croner task
  obey t ht := by cases ht
  logs t ht := by cases ht
  holds := by
    obtain ⟨hvalid, -, hruns⟩ := MemTriggerStore.withTriggers_idle codec conditions triggers
    have hevents := MemTriggerStore.withTriggers_events codec conditions triggers
    constructor
    · intro eventId event hevent
      simp [outboxIdle, hevents] at hevent
    · intro key vc hvc
      simp [outboxIdle, hvalid] at hvc
    · intro runId run hrun
      simp [outboxIdle, hruns] at hrun
    all_goals simp [outboxIdle, System.books]
  start s task _ h := by
    have hnew : ∀ {P : Sighting → Prop}, (∀ g ∈ s.books provenance.toMonitor, P g) →
        P (provenance.start task) →
        ∀ g ∈ s.books provenance.toMonitor ++ [provenance.start task], P g := by
      intro P hold hown g hg
      rcases List.mem_append.mp hg with hg | hg
      · exact hold g hg
      · rwa [List.mem_singleton.mp hg]
    exact ⟨h.keyed, h.valid, h.runs, hnew h.snapshot (by simp [provenance]),
      hnew h.found (by simp [provenance]), hnew h.seen (by simp [provenance])⟩
  call _ _ env _ _ _ _ hturn h := h.call croner codec env hturn

/-- **No provenance link is lost** where event records are stored over the copy in hand. -/
theorem provenance_kept {s : System outboxStore MemTriggerStore OutboxTask}
    (hreach : Reachable (outboxMachine croner codec) uncontested
      (outboxIdle codec conditions triggers) s) : ProvenanceKept s := by
  obtain ⟨hobey, hinv⟩ := (linksKept_upheld croner codec conditions triggers).obeyed hreach
  -- a finished operation has seen the links it made, and they are stored
  have hcomplete : ∀ t ∈ s.threads, t.next? = none → (provenance.book t).Complete := by
    intro t ht hdone
    have hob := hobey t ht
    cases hprog : t.prog with
    | done u =>
        rw [hprog] at hob
        exact hob
    | call c k => simp [Thread.next?, hprog] at hdone
  have hseen : ∀ t ∈ s.threads, ∀ event ∈ (provenance.book t).seen, ∃ stored,
      s.shared.events.lookup event.eventId = some stored ∧ Extends event stored := by
    intro t ht
    exact hinv.seen _ (List.mem_map_of_mem ht)
  constructor
  · intro t ht hdone runId id htask run hrun eventId heventId
    obtain ⟨hbook, hfound, -⟩ := provenance_read t.task t.log
    have hlinked := hcomplete t ht hdone
    unfold Sighting.Complete Monitor.book at hlinked
    rw [hbook, htask] at hlinked
    obtain ⟨event, hevent, rfl, hid⟩ := hlinked run (by rw [← htask, hfound]; exact hrun)
      eventId heventId
    obtain ⟨stored, hstored, hextends⟩ := hseen t ht event (by rwa [Monitor.book, htask])
    exact ⟨stored, hstored, hextends.triggered hid⟩
  · intro t ht hdone code payload htask vc hvc
    obtain ⟨hbook, -, hrecorded⟩ := provenance_read t.task t.log
    have hnoted := hcomplete t ht hdone
    unfold Sighting.Complete Monitor.book at hnoted
    rw [hbook, htask] at hnoted
    obtain ⟨event, hevent, hof, hmatched, hvalid⟩ := hnoted vc (by rw [← htask, hrecorded]; exact hvc)
    obtain ⟨stored, hstored, hextends⟩ := hseen t ht event (by rwa [Monitor.book, htask])
    exact ⟨event.eventId, stored, hof, hstored, hextends.matched hmatched, hextends.valid hvalid⟩

end Runs

/-! ## An event whose run is completed -/

instance (s : System outboxStore MemTriggerStore OutboxTask) (i : Nat) (c : outboxStore.Op) :
    Decidable (uncontested.call s i c) :=
  match c with
  | .inl (.storeEvent event) => inferInstanceAs (Decidable (∀ t ∈ s.threads[i]?,
      s.shared.events.lookup event.eventId = (provenance.book t).held event.eventId ∨
        s.shared.events.lookup event.eventId = some event))
  | .inl (.getConditionsForTask _) | .inl .getCronConditions | .inl (.getEventConditions _)
  | .inl (.getTriggersForCondition _) | .inl (.recordValidCondition _) | .inl .getValidConditions
  | .inl (.getLastCronExecution _) | .inl (.storeCronExecution _ _ _)
  | .inl (.claimTriggerRunsWithRecords _ _) | .inl .utcNow | .inl .newEventId | .inl (.keyOrder _)
  | .inr _ => .isTrue trivial

instance (s : System outboxStore MemTriggerStore OutboxTask) (task : OutboxTask) :
    Decidable (uncontested.start s task) :=
  .isTrue trivial

/-- The store on which event `paid` notifies somebody. -/
def paidOutbox : System outboxStore MemTriggerStore OutboxTask :=
  outboxIdle sampleCodec [onEvent "paid"] [notifyOn (onEvent "paid")]

/-- The run for event `e-1`. -/
def paidRunId : TriggerRunId :=
  orRunId (notifyOn (onEvent "paid"))
    (validConditionIdOf sampleCodec ((onEvent "paid").conditionId sampleCodec) paidContext)

def paidTask : OutboxTask :=
  .complete paidRunId (sampleCodec.triggerRunInvocationId paidRunId.raw)

/-- The emission makes `emitted` calls, the evaluation and the completion run, and then the
emission makes the rest of its six calls. -/
def paidSchedule (emitted : Nat) : List (Label TriggerEnv OutboxTask) :=
  .start (.manager (.event "paid" .null)) :: Label.steps 0 emitted { eventId := "e-1" } ++
    .start (.manager .evaluate) :: Label.steps 1 6 default ++
    .start paidTask :: Label.steps 2 5 default ++
    Label.steps 0 (6 - emitted) default

/-- One after the other: the event has its matches and the invocation of its run. -/
theorem provenance_kept_paid :
    ∃ s, Reachable (outboxMachine idleCroner sampleCodec) uncontested paidOutbox s ∧
      ProvenanceKept s ∧ ∃ t ∈ s.threads, t.task = paidTask ∧ t.next? = none ∧
        ∃ run ∈ t.log.filterMap foundRun?, "e-1" ∈ TriggerRun.eventIds run := by
  obtain ⟨s, hreach, hrest⟩ := Reachable.exists_of_run (outboxMachine idleCroner sampleCodec)
    uncontested paidOutbox (paidSchedule 6)
    (fun s => ∃ t ∈ s.threads, t.task = paidTask ∧ t.next? = none ∧
      ∃ run ∈ t.log.filterMap foundRun?, "e-1" ∈ TriggerRun.eventIds run)
    (by decide +kernel) (by decide +kernel)
  exact ⟨s, hreach, provenance_kept _ _ _ _ hreach, hrest⟩

/-- The emission stores its record last, and the invocation is gone from it. -/
theorem late_emission_drops_link :
    ∃ s, Reachable (outboxMachine idleCroner sampleCodec)
      (Guard.top outboxStore MemTriggerStore OutboxTask) paidOutbox s ∧ ¬ ProvenanceKept s := by
  obtain ⟨s, hreach, t, ht, htask, hdone, run, hrun, heventId, hdropped⟩ :=
    Reachable.exists_of_run (outboxMachine idleCroner sampleCodec)
      (Guard.top outboxStore MemTriggerStore OutboxTask) paidOutbox (paidSchedule 5)
      (fun s => ∃ t ∈ s.threads, t.task = paidTask ∧ t.next? = none ∧
        ∃ run ∈ t.log.filterMap foundRun?, "e-1" ∈ TriggerRun.eventIds run ∧
          (s.shared.events.lookup "e-1").map EventRecord.triggeredInvocationIds = some [])
      (Guard.allowsAll_top _ _ _) (by decide +kernel)
  refine ⟨s, hreach, fun hkept => ?_⟩
  obtain ⟨event, hevent, hid⟩ := hkept.completed t ht hdone _ _ htask run hrun "e-1" heventId
  rw [hevent] at hdropped
  have hnil : event.triggeredInvocationIds = [] := by simpa using hdropped
  rw [hnil] at hid
  cases hid

end Rustvello.Mem
