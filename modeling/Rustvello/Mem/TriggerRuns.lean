import Rustvello.Mem.TriggerEvaluation

/-!
# Which runs are claimed

Evaluations may hold old snapshots, but a run id is claimed for the first time only once,
and a claim that consumes a valid condition also claims the OR runs of that condition.

* `RunsInv` — what holds between the store and the desks in every interleaving;
* `evaluationsOnly` — no report is under way, so the store only shrinks;
* `or_triggers_fire_once` — every reported context that satisfies a condition of an OR
  trigger has made its run exactly once after one more complete evaluation;
* `hidden_composite_never_fires` — a composite that no report finds has no run.
-/

namespace Rustvello.Mem

open Concurrency Proto Rustvello.Core

/-! ## Ids -/

/-- The condition can be read off the id of a valid condition, since digests have no
separator. -/
theorem conditionId_of_validConditionId {codec : Codec}
    (hhex : ∀ text, ∀ c ∈ codec.sha256Hex text, c ∈ hexDigits) {vc vc' : ValidCondition}
    (hformed : Formed codec vc) (hformed' : Formed codec vc')
    (h : vc.validConditionId = vc'.validConditionId) : vc.conditionId = vc'.conditionId := by
  have hclean : ∀ ctx : ConditionContext, '_' ∉ ctx.contextId codec := by
    intro ctx hmem
    exact absurd (hhex _ _ hmem) (by decide)
  have hid : validConditionIdOf codec vc.conditionId vc.context =
      validConditionIdOf codec vc'.conditionId vc'.context := by
    rw [hformed, hformed'] at h
    exact h
  unfold validConditionIdOf at hid
  simp only [List.append_assoc] at hid
  have hfields := Text.append_cons_inj_right (hclean _) (hclean _) (List.append_cancel_left hid)
  cases hraw : vc.conditionId
  cases hraw' : vc'.conditionId
  rw [hraw, hraw'] at hfields
  exact congrArg ConditionId.mk hfields.1

/-! ## The invariant -/

section Invariant

variable (codec : Codec) (init : MemTriggerStore) {before after : List Desk} {s : MemTriggerStore}
  {snapshot : List ValidCondition} {consumed : List (List Char)} {records : List TriggerRun}

/-- A registered OR trigger on this condition. -/
structure OrTrigger (trigger : TriggerDefinitionDTO) (condId : ConditionId) : Prop where
  registered : init.triggers.lookup trigger.triggerId = some trigger
  logic : trigger.logic = .or
  references : condId ∈ trigger.conditionIds

/-- What holds of the store and of the desks together. -/
structure RunsInv (s : MemTriggerStore) (books : List Desk) : Prop where
  registry : MemTriggerStore.SameRegistry init s
  stored : ∀ key vc, s.validConditions.lookup key = some vc →
    vc.validConditionId = key ∧ Formed codec vc
  runs : s.Recorded
  counted : ∀ runId, (books.map fun g => g.first.count runId).sum =
    if s.Claimed runId then 1 else 0
  snapshots : ∀ g ∈ books, ∀ snapshot ∈ g.snapshot, ∀ vc ∈ snapshot, Formed codec vc
  recorded : ∀ g ∈ books, ∀ vc ∈ g.recorded, Formed codec vc
  unclaimed : ∀ g ∈ books, g.claimed = false ∨ g.task ≠ .evaluate → g.first = []

/-- The valid condition is still stored, or all OR runs it makes are claimed. -/
def Kept (s : MemTriggerStore) (vc : ValidCondition) : Prop :=
  (s.validConditions.lookup vc.validConditionId).isSome = true ∨
    ∀ trigger, OrTrigger init trigger vc.conditionId →
      s.Claimed (orRunId trigger vc.validConditionId)

/-- The recorded conditions of all desks are kept. -/
def AllKept (s : MemTriggerStore) (books : List Desk) : Prop :=
  ∀ g ∈ books, ∀ vc ∈ g.recorded, Kept init s vc

variable {codec init}

/-- The books after one of them changed. -/
theorem forall_mem_replaced {P P' : Desk → Prop} {g g' : Desk} (h : ∀ x ∈ before ++ g :: after, P x)
    (hmono : ∀ x, P x → P' x) (hnew : P g → P' g') :
    ∀ x ∈ before ++ g' :: after, P' x :=
  forall_replace h hmono (hnew (h g (by simp)))

/-- A call that touches neither valid conditions nor runs, and an entry that the invariant
does not read. -/
theorem RunsInv.of_quiet {s s' : MemTriggerStore} {g g' : Desk}
    (h : RunsInv codec init s (before ++ g :: after))
    (hregistry : MemTriggerStore.SameRegistry init s')
    (hvalid : s'.validConditions = s.validConditions)
    (hclaims : s'.triggerRunClaims = s.triggerRunClaims) (hruns : s'.triggerRuns = s.triggerRuns)
    (htask : g'.task = g.task) (hfirst : g'.first = g.first) (hclaimed : g'.claimed = g.claimed)
    (hrecorded : g'.recorded = g.recorded)
    (hsnapshot : ∀ snapshot ∈ g'.snapshot, g'.snapshot = g.snapshot ∨
      ∀ vc ∈ snapshot, Formed codec vc) :
    RunsInv codec init s' (before ++ g' :: after) := by
  have hclaim : ∀ runId, s'.Claimed runId ↔ s.Claimed runId := by
    intro runId
    unfold MemTriggerStore.Claimed
    rw [hclaims]
  constructor
  · exact hregistry
  · rw [hvalid]
    exact h.stored
  · constructor
    · intro runId
      rw [hruns, hclaim]
      exact h.runs.claimed runId
    · rw [hruns]
      exact h.runs.keyed
  · intro runId
    have hcounted := h.counted runId
    simp only [List.map_append, List.map_cons, hfirst, hclaim] at hcounted ⊢
    exact hcounted
  · refine forall_mem_replaced h.snapshots (fun _ hx => hx) fun hg snapshot hmem => ?_
    rcases hsnapshot snapshot hmem with hsame | hformed
    · exact hg snapshot (hsame ▸ hmem)
    · exact hformed
  · refine forall_mem_replaced h.recorded (fun _ hx => hx) fun hg => ?_
    rw [hrecorded]
    exact hg
  · refine forall_mem_replaced h.unclaimed (fun _ hx => hx) fun hg hidle => ?_
    rw [hclaimed, htask] at hidle
    rw [hfirst]
    exact hg hidle

/-- Recording a formed condition. -/
theorem RunsInv.record {g : Desk} (h : RunsInv codec init s (before ++ g :: after))
    {vc : ValidCondition} (hvc : Formed codec vc) :
    RunsInv codec init (s.recordValidCondition vc)
      (before ++ { g with recorded := vc :: g.recorded } :: after) := by
  constructor
  · exact ⟨h.registry.conditions, h.registry.sourceTaskConditions, h.registry.eventConditions,
      h.registry.triggers, h.registry.conditionTriggers⟩
  · intro key vc' hlookup
    rw [MemTriggerStore.lookup_record] at hlookup
    split at hlookup
    · rename_i hid
      obtain rfl := Option.some.inj hlookup
      exact ⟨hid.symm, hvc⟩
    · exact h.stored key vc' hlookup
  · exact ⟨h.runs.claimed, h.runs.keyed⟩
  · intro runId
    have hcounted := h.counted runId
    simp only [List.map_append, List.map_cons] at hcounted ⊢
    exact hcounted
  · exact forall_mem_replaced h.snapshots (fun _ hx => hx) fun hg => hg
  · refine forall_mem_replaced h.recorded (fun _ hx => hx) fun hg => ?_
    exact List.forall_mem_cons.mpr ⟨hvc, hg⟩
  · exact forall_mem_replaced h.unclaimed (fun _ hx => hx) fun hg => hg

/-- What a planned claim consumes is in its snapshot. -/
theorem exists_of_mem_consumed (h : Planned codec init snapshot records consumed) {key : List Char}
    (hkey : key ∈ consumed) :
    ∃ vc ∈ snapshot, vc.validConditionId = key := by
  obtain ⟨now, ordered, _, _, _, rfl⟩ := h
  rw [mem_sortTexts, List.mem_dedup] at hkey
  obtain ⟨trigger, _, hconsumed⟩ := List.mem_flatMap.mp hkey
  have hby : ∃ condId ∈ trigger.conditionIds,
      key ∈ (byCondition snapshot condId).map ValidCondition.validConditionId := by
    unfold consumedBy at hconsumed
    split at hconsumed
    · split at hconsumed
      · exact List.mem_flatMap.mp hconsumed
      · cases hconsumed
    · exact List.mem_flatMap.mp hconsumed
  obtain ⟨condId, _, hmem⟩ := hby
  obtain ⟨vc, hvc, rfl⟩ := List.mem_map.mp hmem
  exact ⟨vc, (List.mem_filter.mp hvc).1, rfl⟩

/-- A registered OR trigger fires for every valid condition of the snapshot. -/
theorem OrTrigger.planned (hinit : init.TriggersIndexed) {trigger : TriggerDefinitionDTO}
    {vc : ValidCondition} (hvc : vc ∈ snapshot) (h : OrTrigger init trigger vc.conditionId) :
    Affected init snapshot trigger ∧ vc.validConditionId ∈ consumedBy snapshot trigger ∧
      ∀ now, ∃ candidate ∈ candidatesOf codec now snapshot trigger,
        candidate.1.triggerRunId = orRunId trigger vc.validConditionId := by
  have hby : vc ∈ byCondition snapshot vc.conditionId :=
    List.mem_filter.mpr ⟨hvc, by simp⟩
  refine ⟨⟨vc, hvc, hinit.found h.registered h.references⟩, ?_, fun now => ?_⟩
  · simp only [consumedBy, h.logic]
    exact List.mem_flatMap.mpr ⟨_, h.references, List.mem_map_of_mem hby⟩
  · refine ⟨plannedRun codec now (orRunId trigger vc.validConditionId) trigger [vc], ?_, rfl⟩
    simp only [candidatesOf, h.logic]
    exact List.mem_flatMap.mpr ⟨_, h.references, List.mem_map_of_mem hby⟩

/-- A planned claim contains the OR runs of its snapshot, and consumes what they use. -/
theorem Planned.orRun (hinit : init.TriggersIndexed)
    (hplanned : Planned codec init snapshot records consumed) {trigger : TriggerDefinitionDTO}
    {vc : ValidCondition} (hvc : vc ∈ snapshot) (h : OrTrigger init trigger vc.conditionId) :
    vc.validConditionId ∈ consumed ∧
      ∃ record ∈ records, record.triggerRunId = orRunId trigger vc.validConditionId := by
  obtain ⟨now, ordered, _, hordered, rfl, rfl⟩ := hplanned
  obtain ⟨haffected, hconsumed, hcandidate⟩ := @OrTrigger.planned codec init snapshot hinit _ _ hvc h
  have hmem := (hordered trigger).mpr haffected
  constructor
  · rw [mem_sortTexts, List.mem_dedup]
    exact List.mem_flatMap.mpr ⟨trigger, hmem, hconsumed⟩
  · obtain ⟨candidate, hin, hid⟩ := hcandidate now
    exact ⟨_, List.mem_map_of_mem (List.mem_flatMap.mpr ⟨trigger, hmem, hin⟩), hid⟩

/-- A planned claim. -/
theorem RunsInv.claim {g : Desk} (h : RunsInv codec init s (before ++ g :: after))
    (htask : g.task = .evaluate) (hunclaimed : g.claimed = false) {flags : List Bool}
    {s' : MemTriggerStore} (hclaim : MemTriggerStore.ClaimsAndConsumes s records consumed flags s')
    (hregistry : MemTriggerStore.SameRegistry init s') :
    RunsInv codec init s'
      (before ++ { g with claimed := true, first := firstClaims records flags } :: after) := by
  constructor
  · exact hregistry
  · intro key vc hlookup
    rw [hclaim.valid] at hlookup
    split at hlookup
    · cases hlookup
    · exact h.stored key vc hlookup
  · exact hclaim.recorded
  · intro runId
    have hcounted := h.counted runId
    have hfirst : g.first = [] := h.unclaimed g (by simp) (.inl hunclaimed)
    have hmore := hclaim.counted runId
    simp only [List.map_append, List.map_cons, List.sum_append, List.sum_cons, hfirst,
      List.count_nil] at hcounted ⊢
    omega
  · exact forall_mem_replaced h.snapshots (fun _ hx => hx) fun hg => hg
  · exact forall_mem_replaced h.recorded (fun _ hx => hx) fun hg => hg
  · refine forall_mem_replaced h.unclaimed (fun _ hx => hx) fun _ hidle => ?_
    simp [htask] at hidle

/-- The answers that the desks rely on, and the invariant after any call. -/
theorem runsInv_call (env : TriggerEnv) {c : TriggerCall} {g : Desk}
    (hpre : (deskDiscipline codec init).pre c g) (h : RunsInv codec init s (before ++ g :: after)) :
    (deskDiscipline codec init).resp c g (MemTriggerStore.exec env c s).1 ∧
      RunsInv codec init (MemTriggerStore.exec env c s).2
        (before ++ (deskDiscipline codec init).next c (MemTriggerStore.exec env c s).1 g ::
          after) := by
  have hregistry := h.registry.exec env c
  have hsame : ∀ snapshot ∈ g.snapshot, g.snapshot = g.snapshot ∨
      ∀ vc ∈ snapshot, Formed codec vc := fun _ _ => .inl rfl
  cases c
  case recordValidCondition vc => exact ⟨trivial, h.record hpre.2.2⟩
  case claimTriggerRunsWithRecords records consumed =>
    obtain ⟨hunclaimed, htask, _⟩ := hpre
    have hclaim := MemTriggerStore.claim_claimsAndConsumes env.clock.instant h.runs records consumed
    exact ⟨hclaim.length, h.claim htask hunclaimed hclaim hregistry⟩
  case getValidConditions =>
    refine ⟨trivial, h.of_quiet hregistry rfl rfl rfl rfl rfl rfl rfl ?_⟩
    intro snapshot hsnapshot
    right
    obtain rfl := Option.some.inj hsnapshot
    intro vc hvc
    obtain ⟨key, _, hlookup⟩ := List.mem_filterMap.mp hvc
    exact (h.stored key vc hlookup).2
  case getConditionsForTask taskId =>
    exact ⟨h.registry.getConditionsForTask taskId,
      h.of_quiet hregistry rfl rfl rfl rfl rfl rfl rfl hsame⟩
  case getEventConditions eventCode =>
    exact ⟨h.registry.getEventConditions eventCode,
      h.of_quiet hregistry rfl rfl rfl rfl rfl rfl rfl hsame⟩
  case getTriggersForCondition condId =>
    exact ⟨h.registry.getTriggersForCondition condId,
      h.of_quiet hregistry rfl rfl rfl rfl rfl rfl rfl hsame⟩
  case keyOrder keys =>
    refine ⟨⟨?_, mem_arrange env.order keys⟩,
      h.of_quiet hregistry rfl rfl rfl rfl rfl rfl rfl hsame⟩
    exact nodup_arrange env.order
  case storeCronExecution condId time last =>
    refine ⟨trivial, ?_⟩
    rw [MemTriggerStore.exec_storeCronExecution] at hregistry ⊢
    exact h.of_quiet hregistry rfl rfl rfl rfl rfl rfl rfl hsame
  all_goals exact ⟨trivial, h.of_quiet hregistry rfl rfl rfl rfl rfl rfl rfl hsame⟩

/-- A started operation has recorded nothing yet. -/
theorem allKept_start {books : List Desk} {task : TriggerTask} (h : AllKept init s books) :
    AllKept init s (books ++ [(deskDiscipline codec init).start task]) := by
  intro g hg vc hvc
  rcases List.mem_append.mp hg with hg | hg
  · exact h g hg vc hvc
  · obtain rfl := List.mem_singleton.mp hg
    cases hvc

/-- Every call keeps the recorded conditions. -/
theorem allKept_call (hhex : ∀ text, ∀ c ∈ codec.sha256Hex text, c ∈ hexDigits)
    (hinit : init.TriggersIndexed) (env : TriggerEnv) {c : TriggerCall} {g : Desk}
    (hpre : (deskDiscipline codec init).pre c g)
    (hinv : RunsInv codec init s (before ++ g :: after))
    (h : AllKept init s (before ++ g :: after)) :
    AllKept init (MemTriggerStore.exec env c s).2
      (before ++ (deskDiscipline codec init).next c (MemTriggerStore.exec env c s).1 g ::
        after) := by
  cases c
  case recordValidCondition vc =>
    have hkept : ∀ vc', Kept init s vc' → Kept init (s.recordValidCondition vc) vc' := by
      rintro vc' (hstored | hclaimed)
      · left
        rw [MemTriggerStore.lookup_record]
        split
        · rfl
        · exact hstored
      · exact .inr hclaimed
    refine forall_mem_replaced h (fun x hx vc' hvc' => hkept vc' (hx vc' hvc')) fun hg => ?_
    refine List.forall_mem_cons.mpr ⟨.inl ?_, fun vc' hvc' => hkept vc' (hg vc' hvc')⟩
    show ((s.recordValidCondition vc).validConditions.lookup vc.validConditionId).isSome = true
    rw [MemTriggerStore.lookup_record, if_pos rfl]
    rfl
  case claimTriggerRunsWithRecords records consumed =>
    obtain ⟨_, _, snapshot, hsnapshot, hplanned⟩ := hpre
    have hclaim := MemTriggerStore.claim_claimsAndConsumes env.clock.instant hinv.runs records
      consumed
    have hseen := hinv.snapshots g (by simp) snapshot hsnapshot
    have hkept : ∀ vc, Formed codec vc → Kept init s vc → Kept init
        (s.claimTriggerRunsWithRecords env.clock.instant records consumed).2 vc := by
      rintro vc hvc (hstored | hall)
      · by_cases hkey : vc.validConditionId ∈ consumed
        · -- the snapshot has a condition under this id, so its OR runs are in the claim
          right
          intro trigger htrigger
          obtain ⟨vc', hmem, hid⟩ := exists_of_mem_consumed hplanned hkey
          have hcond := conditionId_of_validConditionId hhex (hseen vc' hmem) hvc hid
          have hrun := (hplanned.orRun hinit hmem (hcond ▸ htrigger)).2
          rw [hid] at hrun
          exact (hclaim.claimed _).mpr (.inr hrun)
        · left
          rw [hclaim.valid, if_neg hkey]
          exact hstored
      · exact .inr fun trigger htrigger => (hclaim.claimed _).mpr (.inl (hall trigger htrigger))
    have hboth : ∀ x ∈ before ++ g :: after, ∀ vc ∈ x.recorded, Formed codec vc ∧
        Kept init s vc := fun x hx vc hvc => ⟨hinv.recorded x hx vc hvc, h x hx vc hvc⟩
    exact forall_mem_replaced hboth (fun _ hx vc hvc => hkept vc (hx vc hvc).1 (hx vc hvc).2)
      fun hg vc hvc => hkept vc (hg vc hvc).1 (hg vc hvc).2
  case storeCronExecution condId time last =>
    rw [MemTriggerStore.exec_storeCronExecution]
    exact h
  all_goals exact forall_mem_replaced h (fun _ hx => hx) fun hg => hg

end Invariant

/-! ## Runs -/

section Runs

variable {codec : Codec} {init : MemTriggerStore}

/-- The rule at work, from a store with some valid conditions and no runs: every operation
keeps its desk, and every call the invariant. -/
theorem runsUpheld_of_stored (codec : Codec) (hinit : init.TriggersIndexed)
    (hstored : ∀ key vc, init.validConditions.lookup key = some vc →
      vc.validConditionId = key ∧ Formed codec vc)
    (hidle : init.triggerRunClaims = ∅ ∧ init.triggerRuns = ∅) (croner : Croner)
    (G : Guard triggerStore MemTriggerStore TriggerTask) :
    (deskDiscipline codec init).Upheld (Desk.Settled codec init) (RunsInv codec init)
      (triggerMachine croner codec) G ⟨init, []⟩ where
  program _ task _ := program_obeys_desk hinit croner task
  obey _ ht := absurd ht (by simp)
  logs _ ht := absurd ht (by simp)
  holds := by
    obtain ⟨hclaims, hruns⟩ := hidle
    have hunclaimed : ∀ runId, ¬ init.Claimed runId := by
      intro runId
      simp [MemTriggerStore.Claimed, hclaims]
    constructor
    · exact MemTriggerStore.SameRegistry.refl init
    · exact hstored
    · constructor
      · intro runId
        simp [hruns, hunclaimed]
      · intro runId run hlookup
        simp [hruns] at hlookup
    · intro runId
      rw [if_neg (hunclaimed runId)]
      rfl
    all_goals
      intro g hg
      simp [System.books] at hg
  start s task _ h := by
    have hnew : ∀ {P : Desk → Prop}, (∀ x ∈ s.books (deskDiscipline codec init).toMonitor, P x) →
        P ((deskDiscipline codec init).start task) →
        ∀ x ∈ s.books (deskDiscipline codec init).toMonitor ++
          [(deskDiscipline codec init).start task], P x := by
      intro P hold hlast x hx
      rcases List.mem_append.mp hx with hx | hx
      · exact hold x hx
      · exact List.mem_singleton.mp hx ▸ hlast
    refine ⟨h.registry, h.stored, h.runs, ?_, hnew h.snapshots ?_, hnew h.recorded ?_,
      hnew h.unclaimed fun _ => rfl⟩
    · intro runId
      have hcounted := h.counted runId
      have hstart : ((deskDiscipline codec init).start task).first = [] := rfl
      simp only [List.map_append, List.map_singleton, List.sum_append, List.sum_singleton, hstart,
        List.count_nil]
      omega
    · intro snapshot hsnapshot
      cases hsnapshot
    · intro vc hvc
      cases hvc
  call s i env t c before after hturn h := runsInv_call env hturn.permitted h

/-- From an empty store. -/
theorem runsUpheld (codec : Codec) (hinit : init.TriggersIndexed) (hidle : init.validConditions = ∅ ∧
      init.triggerRunClaims = ∅ ∧ init.triggerRuns = ∅) (croner : Croner)
    (G : Guard triggerStore MemTriggerStore TriggerTask) :
    (deskDiscipline codec init).Upheld (Desk.Settled codec init) (RunsInv codec init)
      (triggerMachine croner codec) G ⟨init, []⟩ := by
  obtain ⟨hvalid, hclaims, hruns⟩ := hidle
  refine runsUpheld_of_stored codec hinit ?_ ⟨hclaims, hruns⟩ croner G
  intro key vc hlookup
  simp [hvalid] at hlookup

/-- The desk of an operation names its task. -/
theorem book_task (t : Thread triggerStore TriggerTask) :
    ((deskDiscipline codec init).book t).task = t.task := by
  obtain ⟨task, prog, log⟩ := t
  induction log with
  | nil => rfl
  | cons e log ih =>
      obtain ⟨c, r⟩ := e
      have hnext : (Desk.next c r ((deskDiscipline codec init).book ⟨task, prog, log⟩)).task =
          ((deskDiscipline codec init).book ⟨task, prog, log⟩).task := by
        cases c <;> rfl
      exact hnext.trans ih

/-- A report that is no event has its context from the start. -/
theorem book_context {t : Thread triggerStore TriggerTask}
    (htask : ∀ eventCode payload, t.task ≠ .event eventCode payload) :
    ((deskDiscipline codec init).book t).context = t.task.context? := by
  obtain ⟨task, prog, log⟩ := t
  have hevent : ∀ eventId, task.eventContext? eventId = task.context? := by
    intro eventId
    cases task with
    | event eventCode payload => exact absurd rfl (htask eventCode payload)
    | _ => rfl
  induction log with
  | nil => rfl
  | cons e log ih =>
      obtain ⟨c, r⟩ := e
      cases c
      case newEventId =>
        show ((deskDiscipline codec init).book ⟨task, prog, log⟩).task.eventContext? r = _
        rw [book_task]
        exact hevent r
      all_goals exact ih htask

/-! ### Evaluations alone -/

/-- Only evaluations are started. -/
def evaluationsOnly : Guard triggerStore MemTriggerStore TriggerTask where
  start _ task := task = .evaluate
  call _ _ _ := True

/-- No call but a record adds a valid condition. -/
theorem lookup_of_exec (env : TriggerEnv) {c : TriggerCall} (hc : ∀ vc, c ≠ .recordValidCondition vc)
    {s : MemTriggerStore} {key : List Char} {vc : ValidCondition}
    (h : (MemTriggerStore.exec env c s).2.validConditions.lookup key = some vc) :
    s.validConditions.lookup key = some vc := by
  cases c
  case recordValidCondition vc => exact absurd rfl (hc vc)
  case storeCronExecution condId time last =>
    simp only [MemTriggerStore.exec, MemTriggerStore.storeCronExecution] at h
    split at h <;> exact h
  case claimTriggerRunsWithRecords records consumed =>
    obtain ⟨claims, runs, heq⟩ := MemTriggerStore.claimRuns_eq env.clock.instant records s
    simp only [MemTriggerStore.exec, MemTriggerStore.claimTriggerRunsWithRecords,
      MemTriggerStore.lookup_consume, heq] at h
    split at h
    · cases h
    · exact h
  all_goals exact h

/-- The last evaluation has seen every valid condition that is stored, and once it has
claimed, no OR trigger is left with one. -/
def Sweeps (init s : MemTriggerStore) (g : Desk) : Prop :=
  ∀ snapshot ∈ g.snapshot, ∀ key vc, s.validConditions.lookup key = some vc →
    vc ∈ snapshot ∧ (g.claimed = true → ∀ trigger, ¬ OrTrigger init trigger vc.conditionId)

/-- One call of the last evaluation. -/
theorem Sweeps.call (hinit : init.TriggersIndexed) {s : MemTriggerStore} {g : Desk}
    {before after : List Desk} (h : Sweeps init s g)
    (hinv : RunsInv codec init s (before ++ g :: after)) (htask : g.task = .evaluate)
    {c : TriggerCall} (hpre : (deskDiscipline codec init).pre c g) (env : TriggerEnv) :
    Sweeps init (MemTriggerStore.exec env c s).2
      ((deskDiscipline codec init).next c (MemTriggerStore.exec env c s).1 g) := by
  have hrecord : ∀ vc, c ≠ .recordValidCondition vc := by
    rintro vc rfl
    exact hpre.2.1 htask
  have hkeeps : Sweeps init (MemTriggerStore.exec env c s).2 g :=
    fun snapshot hsnapshot key vc hlookup => h snapshot hsnapshot key vc
      (lookup_of_exec env hrecord hlookup)
  cases c
  case recordValidCondition vc => exact absurd rfl (hrecord vc)
  case getValidConditions =>
    intro snapshot hsnapshot key vc hlookup
    have hlookup : s.validConditions.lookup key = some vc := hlookup
    obtain rfl := Option.some.inj hsnapshot
    refine ⟨?_, fun hclaimed => absurd (hpre.1.symm.trans hclaimed) (by simp)⟩
    -- the snapshot has all values of the map
    refine List.mem_filterMap.mpr ⟨key, (mem_arrange _ _ _).mpr ?_, hlookup⟩
    exact AList.mem_keys.mpr (AList.lookup_isSome.mp (by rw [hlookup]; rfl))
  case claimTriggerRunsWithRecords records consumed =>
    obtain ⟨_, _, snapshot, hsnapshot, hplanned⟩ := hpre
    intro snapshot' hsnapshot' key vc hlookup
    have hseen := (hkeeps snapshot' hsnapshot' key vc hlookup).1
    refine ⟨hseen, fun _ trigger htrigger => ?_⟩
    obtain rfl : snapshot = snapshot' := Option.some.inj (hsnapshot.symm.trans hsnapshot')
    have hconsumed := (hplanned.orRun hinit hseen htrigger).1
    have hkey := (hinv.stored key vc (lookup_of_exec env hrecord hlookup)).1
    obtain ⟨claims, runs, heq⟩ := MemTriggerStore.claimRuns_eq env.clock.instant records s
    simp only [MemTriggerStore.exec, MemTriggerStore.claimTriggerRunsWithRecords,
      MemTriggerStore.lookup_consume, heq, ← hkey, hconsumed, if_true] at hlookup
    cases hlookup
  all_goals exact hkeeps

/-- No report is under way, and thread `i` is an evaluation that sweeps the store. -/
structure Closing (codec : Codec) (init : MemTriggerStore) (i : Nat)
    (s : System triggerStore MemTriggerStore TriggerTask) : Prop where
  reported : ∀ t ∈ s.threads, t.task ≠ .evaluate → t.next? = none
  sweeps : ∃ t, s.threads[i]? = some t ∧ t.task = .evaluate ∧
    Sweeps init s.shared ((deskDiscipline codec init).book t)

/-- While only evaluations run, the last one keeps sweeping. -/
theorem Closing.run (hinit : init.TriggersIndexed) {croner : Croner}
    {G : Guard triggerStore MemTriggerStore TriggerTask} (hstart : ∀ s, G.start s .evaluate)
    (hcall : ∀ s i c, G.call s i c)
    (hup : (deskDiscipline codec init).Upheld (Desk.Settled codec init) (RunsInv codec init)
      (triggerMachine croner codec) G ⟨init, []⟩) {i : Nat}
    {s s' : System triggerStore MemTriggerStore TriggerTask}
    (hreach : Reachable (triggerMachine croner codec) G ⟨init, []⟩ s) (h : Closing codec init i s)
    (hrun : Reachable (triggerMachine croner codec) evaluationsOnly s s') :
    Reachable (triggerMachine croner codec) G ⟨init, []⟩ s' ∧ Closing codec init i s' := by
  induction hrun with
  | refl => exact ⟨hreach, h⟩
  | @next u u' l _ hallow happly ih =>
      obtain ⟨hreach', hclosing⟩ := ih
      have hallow' : G.Allows u l := by
        cases l with
        | start task =>
            obtain rfl : task = .evaluate := hallow
            exact hstart u
        | step j env => exact fun _ _ c _ => hcall u j c
      refine ⟨.next hreach' hallow' happly, ?_⟩
      obtain ⟨t, ht, htask, hsweeps⟩ := hclosing.sweeps
      have hi : i < u.threads.length := (List.getElem?_eq_some_iff.mp ht).1
      obtain ⟨task, rfl, rfl⟩ | ⟨j, env, t', c, k, rfl, ht', hprog, rfl⟩ :=
        System.apply_cases happly
      · obtain rfl : task = .evaluate := hallow
        constructor
        · intro x hx hreport
          rcases List.mem_append.mp hx with hx | hx
          · exact hclosing.reported x hx hreport
          · exact absurd (List.mem_singleton.mp hx ▸ rfl) hreport
        · refine ⟨t, ?_, htask, hsweeps⟩
          show (u.threads ++ _)[i]? = some t
          rw [List.getElem?_append_left hi, ht]
      · obtain ⟨before, after, hturn, hinv⟩ := hup.turn hreach' ht' hprog (hcall u j c)
        -- whoever makes a call is an evaluation
        have htask' : t'.task = .evaluate := by
          by_contra hreport
          have hdone := hclosing.reported t' (List.mem_of_getElem? ht') hreport
          simp [Thread.next?, hprog] at hdone
        have hbook : ((deskDiscipline codec init).book t').task = .evaluate :=
          (book_task t').trans htask'
        constructor
        · intro x hx hreport
          rcases List.mem_or_eq_of_mem_set hx with hx | rfl
          · exact hclosing.reported x hx hreport
          · exact absurd htask' hreport
        · by_cases hij : j = i
          · subst hij
            obtain rfl : t = t' := Option.some.inj (ht.symm.trans ht')
            refine ⟨_, List.getElem?_set_self hi, htask, ?_⟩
            exact hsweeps.call hinit hinv hbook hturn.permitted env
          · refine ⟨t, ?_, htask, ?_⟩
            · show (u.threads.set j _)[i]? = some t
              rw [List.getElem?_set_ne hij, ht]
            · have hrecord : ∀ vc, c ≠ .recordValidCondition vc := by
                rintro vc rfl
                exact hturn.permitted.2.1 hbook
              exact fun snapshot hsnapshot key vc hlookup => hsweeps snapshot hsnapshot key vc
                (lookup_of_exec env hrecord hlookup)

/-! ### Reports and evaluations -/

/-- The reported context finds every registered composite that it satisfies. -/
def coveredReports (codec : Codec) (conditions : List TriggerCondition) :
    Guard triggerStore MemTriggerStore TriggerTask where
  start _ task := ∀ eventId, ∀ ctx ∈ task.eventContext? eventId, Covered codec conditions ctx
  call _ _ _ := True

/-- The context that an operation reported; an event has the id that was returned. -/
def reportedContext (codec : Codec) (t : Thread triggerStore TriggerTask) :
    Option ConditionContext :=
  match t.task with
  | .event eventCode payload => (t.returned (emitEvent codec eventCode payload)).map fun eventId =>
      .event ⟨eventId, eventCode, payload⟩
  | task => task.context?

/-- What an evaluation returned. -/
def executionsOf (codec : Codec) (t : Thread triggerStore TriggerTask) : List TriggerExecution :=
  if t.task = .evaluate then (t.returned (evaluateTriggerRuns codec)).getD [] else []

/-- The run ids of all executions that were returned. -/
def returnedRuns (codec : Codec) (s : System triggerStore MemTriggerStore TriggerTask) :
    List TriggerRunId :=
  s.threads.flatMap fun t => (executionsOf codec t).map TriggerExecution.runId

section Reading

variable {croner : Croner} {G : Guard triggerStore MemTriggerStore TriggerTask}
  {s : System triggerStore MemTriggerStore TriggerTask}
  (hup : (deskDiscipline codec init).Upheld (Desk.Settled codec init) (RunsInv codec init)
    (triggerMachine croner codec) G ⟨init, []⟩)
  (hreach : Reachable (triggerMachine croner codec) G ⟨init, []⟩ s)
include hup hreach

/-- What an evaluation returned is what it was the first to claim. -/
theorem executionsOf_runId (hinit : init.TriggersIndexed) {t : Thread triggerStore TriggerTask}
    (ht : t ∈ s.threads) :
    (executionsOf codec t).map TriggerExecution.runId =
      ((deskDiscipline codec init).book t).first := by
  obtain ⟨hobey, hinv⟩ := hup.obeyed hreach
  have hmem : (deskDiscipline codec init).book t ∈ s.books (deskDiscipline codec init).toMonitor :=
    List.mem_map_of_mem ht
  have hunclaimed := hinv.unclaimed _ hmem
  rw [book_task] at hunclaimed
  unfold executionsOf
  split
  · rename_i htask
    cases hreturned : t.returned (evaluateTriggerRuns codec) with
    | some executions =>
        have hobeys := @evaluateTriggerRuns_obeys codec init hinit
        rw [← htask] at hobeys
        exact (hup.outcome hreach ht hobeys hreturned).1
    | none =>
        -- an evaluation that has not returned is about to make a call, so it has not claimed
        have hprogram : (triggerMachine croner codec).program t.task =
            (evaluateTriggerRuns codec).toUnit := by rw [htask]; rfl
        cases hprog : t.prog with
        | done u =>
            have hdone : t.next? = none := by simp [Thread.next?, hprog]
            obtain ⟨executions, hsome⟩ := hreach.returned rfl ht hprogram hdone
            rw [hreturned] at hsome
            cases hsome
        | call c k =>
            have hnext := hobey t ht
            rw [hprog] at hnext
            exact (hunclaimed (.inl hnext.1.1)).symm
  · rename_i htask
    exact (hunclaimed (.inr htask)).symm

/-- A run is returned as often as it was claimed for the first time. -/
theorem count_returnedRuns (hinit : init.TriggersIndexed) (runId : TriggerRunId) :
    (returnedRuns codec s).count runId = if s.shared.Claimed runId then 1 else 0 := by
  have hcounted := (hup.obeyed hreach).2.counted runId
  rw [← hcounted, returnedRuns, List.count_flatMap]
  simp only [System.books, List.map_map]
  congr 1
  apply List.map_congr_left
  intro t ht
  show ((executionsOf codec t).map TriggerExecution.runId).count runId = _
  rw [executionsOf_runId hup hreach hinit ht]
  rfl

/-- A finished report has recorded every satisfied condition that it finds. -/
theorem recorded_of_reportedContext {t : Thread triggerStore TriggerTask} (ht : t ∈ s.threads)
    (hdone : t.task ≠ .evaluate → t.next? = none) {ctx : ConditionContext}
    (hctx : reportedContext codec t = some ctx) {condId : ConditionId} {cond : TriggerCondition}
    (hfound : (condId, cond) ∈ lookupFor init ctx) (hsat : cond.isSatisfiedBy codec ctx = true) :
    ValidCondition.new codec condId ctx ∈ ((deskDiscipline codec init).book t).recorded := by
  have htask : t.task ≠ .evaluate := by
    intro heval
    simp [reportedContext, heval, TriggerTask.context?] at hctx
  have hsettled : ((deskDiscipline codec init).book t).Settled codec init := by
    have hobey := (hup.obeyed hreach).1 t ht
    cases hprog : t.prog with
    | done u =>
        rw [hprog] at hobey
        exact hobey
    | call c k => exact absurd (hdone htask) (by simp [Thread.next?, hprog])
  refine hsettled.reported ctx ?_ (condId, cond) hfound hsat
  by_cases hevent : ∃ eventCode payload, t.task = .event eventCode payload
  · obtain ⟨eventCode, payload, hevent⟩ := hevent
    simp only [reportedContext, hevent, Option.map_eq_some_iff] at hctx
    obtain ⟨eventId, hreturned, rfl⟩ := hctx
    have hobeys := @emitEvent_obeys codec init eventCode payload
    rw [← hevent] at hobeys
    exact (hup.outcome hreach ht hobeys hreturned).1
  · have hother : ∀ eventCode payload, t.task ≠ .event eventCode payload :=
      fun eventCode payload heq => hevent ⟨eventCode, payload, heq⟩
    have hcontext : reportedContext codec t = t.task.context? := by
      unfold reportedContext
      split
      · rename_i heq
        exact absurd heq (hother _ _)
      · rfl
    rw [book_context hother, ← hcontext, hctx]
    rfl

/-- Once the last evaluation has ended, no OR trigger is left with a valid condition. -/
theorem Closing.swept (hinit : init.TriggersIndexed) {i : Nat} (hclosing : Closing codec init i s)
    (hended : ∀ t ∈ s.threads[i]?, t.next? = none) {key : List Char} {vc : ValidCondition}
    (hlookup : s.shared.validConditions.lookup key = some vc) (trigger : TriggerDefinitionDTO) :
    ¬ OrTrigger init trigger vc.conditionId := by
  intro htrigger
  obtain ⟨last, hlast, htask, hsweeps⟩ := hclosing.sweeps
  have hsettled : ((deskDiscipline codec init).book last).Settled codec init := by
    have hobey := (hup.obeyed hreach).1 last (List.mem_of_getElem? hlast)
    cases hprog : last.prog with
    | done u =>
        rw [hprog] at hobey
        exact hobey
    | call c k => exact absurd (hended last hlast) (by simp [Thread.next?, hprog])
  obtain ⟨snapshot, hsnapshot, hfired⟩ := hsettled.evaluated ((book_task last).trans htask)
  obtain ⟨hseen, hnone⟩ := hsweeps snapshot hsnapshot key vc hlookup
  rcases hfired with hclaimed | ⟨now, hnothing⟩
  · exact hnone hclaimed trigger htrigger
  · -- an evaluation that ended without a claim had nothing to claim
    obtain ⟨haffected, _, hcandidate⟩ := @OrTrigger.planned codec init snapshot hinit _ _ hseen
      htrigger
    obtain ⟨candidate, hin, _⟩ := hcandidate now
    rw [hnothing trigger haffected] at hin
    cases hin

end Reading

/-- A reported context is one that its operation may report, and no cron context. -/
theorem eventContext_of_reportedContext {t : Thread triggerStore TriggerTask}
    {ctx : ConditionContext} (h : reportedContext codec t = some ctx) :
    (∃ eventId, ctx ∈ t.task.eventContext? eventId) ∧ ∀ cron, ctx ≠ .cron cron := by
  obtain ⟨task, prog, log⟩ := t
  cases task with
  | event eventCode payload =>
      obtain ⟨eventId, _, rfl⟩ := Option.map_eq_some_iff.mp h
      exact ⟨⟨eventId, rfl⟩, by simp⟩
  | cron => cases h
  | evaluate => cases h
  | _ =>
      obtain rfl := Option.some.inj h
      exact ⟨⟨"", rfl⟩, by simp⟩

/-- A covered report finds what its context satisfies. -/
theorem exists_mem_lookupFor {conditions : List TriggerCondition}
    (triggers : List TriggerDefinitionDTO) {ctx : ConditionContext}
    (hctx : ∀ cron, ctx ≠ .cron cron) (hcovered : Covered codec conditions ctx)
    {condId : ConditionId} (hsat : Satisfied codec conditions condId ctx) :
    ∃ cond, (condId, cond) ∈
        lookupFor (MemTriggerStore.withTriggers codec conditions triggers) ctx ∧
      cond.isSatisfiedBy codec ctx = true := by
  have hfound := (found_iff_covered codec conditions hctx).mpr hcovered condId hsat
  obtain ⟨cond, hlast, hcond⟩ := hsat
  refine ⟨cond, ?_, hcond⟩
  have hmem := (mem_lookupFor codec conditions ctx condId cond).mpr ⟨hfound, hlast⟩
  -- triggers do not enter the lookup of conditions
  obtain ⟨byId, byCondition, heq⟩ := MemTriggerStore.withTriggers_eq codec conditions triggers
  rw [heq]
  cases ctx <;> exact hmem

/-- A run that ends with a complete evaluation: all reports have finished in `s`, one more
evaluation is started there, and it has ended in `s₂`; other evaluations may run all the
time. -/
structure EndsWithEvaluation (croner : Croner) (codec : Codec)
    (G : Guard triggerStore MemTriggerStore TriggerTask)
    (init s s₁ s₂ : System triggerStore MemTriggerStore TriggerTask) : Prop where
  before : Reachable (triggerMachine croner codec) G init s
  reported : ∀ t ∈ s.threads, t.task ≠ .evaluate → t.next? = none
  start : s.apply (triggerMachine croner codec) (.start .evaluate) = some s₁
  after : Reachable (triggerMachine croner codec) evaluationsOnly s₁ s₂
  ended : ∀ t ∈ s₂.threads[s.threads.length]?, t.next? = none

/-- **OR triggers fire exactly once.**  After a run with covered reports that ends with a
complete evaluation, every run of an OR trigger for a condition and a reported context that
satisfies it was returned exactly once and has one record, and no valid condition of an OR
trigger is left. -/
theorem or_triggers_fire_once
    (hhex : ∀ text, ∀ c ∈ codec.sha256Hex text, c ∈ hexDigits) (croner : Croner)
    (conditions : List TriggerCondition) (triggers : List TriggerDefinitionDTO)
    {s s₁ s₂ : System triggerStore MemTriggerStore TriggerTask}
    (hrun : EndsWithEvaluation croner codec (coveredReports codec conditions)
      ⟨MemTriggerStore.withTriggers codec conditions triggers, []⟩ s s₁ s₂) :
    (∀ trigger condId,
      OrTrigger (MemTriggerStore.withTriggers codec conditions triggers) trigger condId →
      ∀ t ∈ s₂.threads, ∀ ctx ∈ reportedContext codec t, Satisfied codec conditions condId ctx →
        (returnedRuns codec s₂).count (orRunId trigger (validConditionIdOf codec condId ctx)) = 1 ∧
        ∃! key, ∃ run, s₂.shared.triggerRuns.lookup key = some run ∧
          run.triggerRunId = orRunId trigger (validConditionIdOf codec condId ctx)) ∧
    ∀ key vc, s₂.shared.validConditions.lookup key = some vc → ∀ trigger,
      ¬ OrTrigger (MemTriggerStore.withTriggers codec conditions triggers) trigger
        vc.conditionId := by
  have hinit := MemTriggerStore.withTriggers_indexed codec conditions triggers
  have hidle := MemTriggerStore.withTriggers_idle codec conditions triggers
  have hup := runsUpheld codec hinit hidle croner (coveredReports codec conditions)
  have hkept := hup.and (AllKept _) (fun _ hg => absurd hg (by simp [System.books]))
    (fun _ _ => allKept_start)
    fun _ _ env _ _ _ _ hturn hinv h => allKept_call hhex hinit env hturn.permitted hinv h
  have hfree : ∀ s, (coveredReports codec conditions).start s .evaluate :=
    fun _ _ _ hctx => by cases hctx
  obtain ⟨hbefore, hreported, hstart, hafter, hended⟩ := hrun
  obtain ⟨task, htask, rfl⟩ | ⟨_, _, _, _, _, hstep, _⟩ := System.apply_cases hstart
  swap
  · cases hstep
  obtain rfl : TriggerTask.evaluate = task := Label.start.inj htask
  -- the last evaluation sweeps the store from its start to its end
  have hopening : Closing codec (MemTriggerStore.withTriggers codec conditions triggers)
      s.threads.length { s with threads := s.threads ++
        [⟨.evaluate, (triggerMachine croner codec).program .evaluate, []⟩] } := by
    constructor
    · intro t ht hreport
      rcases List.mem_append.mp ht with ht | ht
      · exact hreported t ht hreport
      · exact absurd (List.mem_singleton.mp ht ▸ rfl) hreport
    · refine ⟨_, List.getElem?_concat_length, rfl, ?_⟩
      intro snapshot hsnapshot
      cases hsnapshot
  obtain ⟨hreach, hclosing⟩ := hopening.run hinit hfree (fun _ _ _ => trivial) hup
    (.next (l := .start .evaluate) hbefore (hfree s) hstart) hafter
  have hswept : ∀ key vc, s₂.shared.validConditions.lookup key = some vc → ∀ trigger,
      ¬ OrTrigger (MemTriggerStore.withTriggers codec conditions triggers) trigger
        vc.conditionId :=
    fun _ _ hlookup => hclosing.swept hup hreach hinit hended hlookup
  refine ⟨?_, hswept⟩
  intro trigger condId htrigger t ht ctx hctx hsat
  obtain ⟨⟨eventId, hevent⟩, hcron⟩ := eventContext_of_reportedContext hctx
  have hcovered : Covered codec conditions ctx :=
    hreach.started (P := fun task => (coveredReports codec conditions).start s task) rfl
      (fun _ _ h => h) t ht eventId ctx hevent
  obtain ⟨cond, hfound, hcond⟩ := exists_mem_lookupFor triggers hcron hcovered hsat
  have hrecorded := recorded_of_reportedContext hup hreach ht (hclosing.reported t ht) hctx hfound
    hcond
  obtain ⟨_, hinv, hall⟩ := hkept.obeyed hreach
  have hclaimed : s₂.shared.Claimed (orRunId trigger (validConditionIdOf codec condId ctx)) := by
    have hbook := List.mem_map_of_mem (f := (deskDiscipline codec
      (MemTriggerStore.withTriggers codec conditions triggers)).book) ht
    have hformed := hinv.recorded _ hbook _ hrecorded
    obtain hstored | hruns := hall _ hbook _ hrecorded
    · obtain ⟨vc, hlookup⟩ := Option.isSome_iff_exists.mp hstored
      obtain ⟨hid, hformed'⟩ := hinv.stored _ vc hlookup
      have hcondId := conditionId_of_validConditionId hhex hformed' hformed hid
      exact absurd (hcondId ▸ htrigger) (hswept _ vc hlookup trigger)
    · exact hruns trigger htrigger
  refine ⟨?_, ?_⟩
  · rw [count_returnedRuns hup hreach hinit, if_pos hclaimed]
  · obtain ⟨run, hrun⟩ := Option.isSome_iff_exists.mp ((hinv.runs.claimed _).mpr hclaimed)
    refine ⟨_, ⟨run, hrun, hinv.runs.keyed _ run hrun⟩, ?_⟩
    rintro key ⟨run', hrun', hid⟩
    exact (hinv.runs.keyed key run' hrun').symm.trans hid

end Runs

/-! ## Runs to compute with -/

/-- An OR trigger on one condition. -/
def notifyOn (cond : TriggerCondition) : TriggerDefinitionDTO :=
  ⟨⟨"notify".toList⟩, ⟨.rust, "mail", "send"⟩, [cond.conditionId sampleCodec], .or, none⟩

def notifying (cond : TriggerCondition) : System triggerStore MemTriggerStore TriggerTask :=
  ⟨MemTriggerStore.withTriggers sampleCodec [cond] [notifyOn cond], []⟩

theorem notifyOn_orTrigger (cond : TriggerCondition) :
    OrTrigger (MemTriggerStore.withTriggers sampleCodec [cond] [notifyOn cond]) (notifyOn cond)
      (cond.conditionId sampleCodec) :=
  ⟨AList.lookup_insert _, rfl, List.mem_singleton_self _⟩

def idleCroner : Croner :=
  ⟨Unit, fun _ => none, fun _ _ => none⟩

/-- One event of code `paid` is emitted, then an evaluation runs. -/
theorem endsWithEvaluation_of_run {cond : TriggerCondition} {reportCalls evaluationCalls : Nat}
    {G : Guard triggerStore MemTriggerStore TriggerTask}
    {P : System triggerStore MemTriggerStore TriggerTask → Prop} [DecidablePred P]
    (hallow : G.AllowsAll (triggerMachine idleCroner sampleCodec) (notifying cond)
      (.start (.event "paid" .null) :: Label.steps 0 reportCalls { eventId := "e-1" }))
    (hrun : (((notifying cond).run (triggerMachine idleCroner sampleCodec)
        (.start (.event "paid" .null) :: Label.steps 0 reportCalls { eventId := "e-1" })).any
          fun s => decide ((∀ t ∈ s.threads, t.task ≠ .evaluate → t.next? = none) ∧
            s.threads.length = 1) &&
          ((s.apply (triggerMachine idleCroner sampleCodec) (.start .evaluate)).any fun s₁ =>
            (s₁.run (triggerMachine idleCroner sampleCodec)
              (Label.steps 1 evaluationCalls {})).any fun s₂ =>
                decide ((∀ t ∈ s₂.threads[1]?, t.next? = none) ∧ P s₂))) = true) :
    ∃ s s₁ s₂, EndsWithEvaluation idleCroner sampleCodec G (notifying cond) s s₁ s₂ ∧ P s₂ := by
  rw [Option.any_eq_true] at hrun
  obtain ⟨s, hs, hrest⟩ := hrun
  rw [Bool.and_eq_true, decide_eq_true_eq] at hrest
  obtain ⟨⟨hreported, hlength⟩, hrest⟩ := hrest
  rw [Option.any_eq_true] at hrest
  obtain ⟨s₁, hstart, hrest⟩ := hrest
  rw [Option.any_eq_true] at hrest
  obtain ⟨s₂, hafter, hrest⟩ := hrest
  rw [decide_eq_true_eq] at hrest
  refine ⟨s, s₁, s₂, ⟨Reachable.run .refl hallow hs, hreported, hstart, ?_, ?_⟩, hrest.2⟩
  · refine Reachable.run .refl (Guard.allowsAll_of_starts _ (fun _ _ _ => trivial) ?_ _) hafter
    intro s task hmem
    exact absurd (List.eq_of_mem_replicate hmem) (by simp)
  · rw [hlength]
    exact hrest.1

/-- An event that its trigger watches is reported, and its run is returned once. -/
theorem or_triggers_fire_once_paid :
    ∃ s s₁ s₂, EndsWithEvaluation idleCroner sampleCodec
        (coveredReports sampleCodec [onEvent "paid"]) (notifying (onEvent "paid")) s s₁ s₂ ∧
      (returnedRuns sampleCodec s₂).count (orRunId (notifyOn (onEvent "paid"))
        (validConditionIdOf sampleCodec ((onEvent "paid").conditionId sampleCodec) paidContext)) =
          1 := by
  have hallow : (coveredReports sampleCodec [onEvent "paid"]).AllowsAll
      (triggerMachine idleCroner sampleCodec) (notifying (onEvent "paid"))
      (.start (.event "paid" .null) :: Label.steps 0 6 { eventId := "e-1" }) := by
    apply Guard.allowsAll_of_starts _ fun _ _ _ => trivial
    rintro s task _ eventId ctx _ logic children hlast
    have hmem := mem_of_lastUnder sampleCodec hlast
    simp [onEvent] at hmem
  obtain ⟨s, s₁, s₂, hrun, t, ht, hctx⟩ := @endsWithEvaluation_of_run (onEvent "paid") 6 6 _
    (fun s₂ => ∃ t ∈ s₂.threads, reportedContext sampleCodec t = some paidContext) _ hallow
    (by decide +kernel)
  have honce := or_triggers_fire_once sampleCodec_sound.sha256Hex_hex idleCroner _ _ hrun
  exact ⟨s, s₁, s₂, hrun, (honce.1 _ _ (notifyOn_orTrigger _) t ht _ hctx
    ⟨onEvent "paid", rfl, by decide⟩).1⟩

/-- A composite of the event is satisfied too, and its trigger never fires. -/
theorem hidden_composite_never_fires :
    sampleCodec.Sound ∧ ∃ s s₁ s₂, EndsWithEvaluation idleCroner sampleCodec
        (Guard.top triggerStore MemTriggerStore TriggerTask) (notifying compositeOfEvent) s s₁ s₂ ∧
      OrTrigger (MemTriggerStore.withTriggers sampleCodec [compositeOfEvent]
        [notifyOn compositeOfEvent]) (notifyOn compositeOfEvent)
          (compositeOfEvent.conditionId sampleCodec) ∧
      (∃ t ∈ s₂.threads, reportedContext sampleCodec t = some paidContext) ∧
      Satisfied sampleCodec [compositeOfEvent] (compositeOfEvent.conditionId sampleCodec)
        paidContext ∧
      returnedRuns sampleCodec s₂ = [] := by
  obtain ⟨s, s₁, s₂, hrun, hreported, hnone⟩ := @endsWithEvaluation_of_run compositeOfEvent 4 1
    (Guard.top triggerStore MemTriggerStore TriggerTask)
    (fun s₂ => (∃ t ∈ s₂.threads, reportedContext sampleCodec t = some paidContext) ∧
      returnedRuns sampleCodec s₂ = []) _ (Guard.allowsAll_top _ _ _) (by decide +kernel)
  exact ⟨sampleCodec_sound, s, s₁, s₂, hrun, notifyOn_orTrigger _, hreported,
    ⟨compositeOfEvent, by rfl, by decide⟩, hnone⟩

end Rustvello.Mem
