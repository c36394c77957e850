import Rustvello.Mem.TriggerParticipants

/-!
# Conditions that several triggers share

An evaluation consumes the valid conditions of every trigger that fires.  Another trigger
on the same condition may still wait for a second one, and then it never sees the first.

* `AllBuilt` — the triggers come from builders;
* `MadeFor`, `Serves` — a run of a trigger, and a condition that takes part in one;
* `NothingLost` — what a step removes has runs of all its triggers;
* `undivided` — a claim is made only if every trigger of a consumed condition fires with
  it or has a run of it;
* `shared_conditions_kept` — a step loses nothing exactly when `undivided` allows it.
-/

namespace Rustvello.Mem

open Concurrency Proto Rustvello.Core

/-! ## Building triggers -/

/-- The triggers come from builders. -/
def AllBuilt (codec : Codec) (triggers : List TriggerDefinitionDTO) : Prop :=
  ∀ trigger ∈ triggers, ∃ (b : TriggerBuilder) (target : TaskId),
    b.build codec target = .ok trigger

namespace MemTriggerStore

/-- Valid conditions that are pending from the start. -/
def withPending (codec : Codec) (s : MemTriggerStore)
    (pending : List (ConditionId × ConditionContext)) : MemTriggerStore :=
  pending.foldl (fun s entry => s.recordValidCondition (.new codec entry.1 entry.2)) s

/-- They are formed, and nothing else differs. -/
theorem withPending_eq (codec : Codec) {s : MemTriggerStore} (hempty : s.validConditions = ∅)
    (pending : List (ConditionId × ConditionContext)) :
    ∃ valid, withPending codec s pending = { s with validConditions := valid } ∧
      ∀ key vc, valid.lookup key = some vc → vc.validConditionId = key ∧ Formed codec vc := by
  induction pending using List.reverseRecOn with
  | nil =>
      refine ⟨s.validConditions, rfl, ?_⟩
      intro key vc hlookup
      simp [hempty] at hlookup
  | append_singleton pending entry ih =>
      obtain ⟨valid, heq, hformed⟩ := ih
      let vc := ValidCondition.new codec entry.1 entry.2
      refine ⟨valid.insert vc.validConditionId vc, ?_, ?_⟩
      · rw [withPending, List.foldl_append]
        show (withPending codec s pending).recordValidCondition vc = _
        rw [heq]
        rfl
      · intro key vc' hlookup
        by_cases hid : key = vc.validConditionId
        · subst hid
          rw [AList.lookup_insert] at hlookup
          obtain rfl := Option.some.inj hlookup
          exact ⟨rfl, formed_new _ _⟩
        · rw [AList.lookup_insert_ne hid] at hlookup
          exact hformed key vc' hlookup

/-- A registered trigger is one of those that were registered. -/
theorem mem_of_lookup_withTriggers (codec : Codec) (conditions : List TriggerCondition)
    {triggers : List TriggerDefinitionDTO} {id : TriggerDefinitionId}
    {trigger : TriggerDefinitionDTO}
    (h : (withTriggers codec conditions triggers).triggers.lookup id = some trigger) :
    trigger ∈ triggers := by
  induction triggers using List.reverseRecOn with
  | nil =>
      simp [withTriggers, registered_triggers] at h
  | append_singleton triggers last ih =>
      rw [withTriggers_append, registerTrigger] at h
      by_cases hid : id = last.triggerId
      · subst hid
        rw [AList.lookup_insert] at h
        obtain rfl := Option.some.inj h
        simp
      · rw [AList.lookup_insert_ne hid] at h
        exact List.mem_append_left _ (ih h)

/-- A claim keeps the records of earlier ones. -/
theorem lookup_claimRuns_of_some (now : Timestamp) (records : List TriggerRun)
    {s : MemTriggerStore} (h : s.Recorded) {runId : TriggerRunId} {run : TriggerRun}
    (hrun : s.triggerRuns.lookup runId = some run) :
    (claimRuns now s records).2.triggerRuns.lookup runId = some run := by
  induction records generalizing s with
  | nil => exact hrun
  | cons record rest ih =>
      obtain ⟨_, heq⟩ | ⟨hnew, heq⟩ := claimRun_cases now h record
      · rw [claimRuns, heq]
        exact ih h hrun
      · have hne : runId ≠ record.triggerRunId := by
          intro hid
          apply hnew
          rw [← h.claimed, ← hid, hrun]
          rfl
        rw [claimRuns, heq]
        exact ih (h.claim now record) (by rw [AList.lookup_insert_ne hne]; exact hrun)

end MemTriggerStore

/-! ## Runs of a trigger -/

section Shared

variable (codec : Codec) (init : MemTriggerStore) {trigger trigger' : TriggerDefinitionDTO}
  {snapshot : List ValidCondition}

/-- A registered trigger on this condition. -/
structure Watches (trigger : TriggerDefinitionDTO) (condId : ConditionId) : Prop where
  registered : init.triggers.lookup trigger.triggerId = some trigger
  references : condId ∈ trigger.conditionIds

/-- The condition takes part in the run. -/
def TakesPart (condId : ConditionId) (run : TriggerRun) : Prop :=
  ∃ participant ∈ run.participants, participant.conditionId = condId

/-- The run was planned for the trigger: an AND run has all its conditions, an OR run the
one that its id names. -/
structure MadeFor (runId : TriggerRunId) (run : TriggerRun) (trigger : TriggerDefinitionDTO) :
    Prop where
  registered : init.triggers.lookup trigger.triggerId = some trigger
  owner : run.triggerId = trigger.triggerId
  named : ∃ rest, runId.raw = "run_".toList ++ trigger.triggerId.raw ++ '_' :: rest
  all : trigger.logic = .and → ∀ condId ∈ trigger.conditionIds, TakesPart condId run
  one : trigger.logic = .or → ∃ vc, Formed codec vc ∧
    runId = orRunId trigger vc.validConditionId ∧ TakesPart vc.conditionId run

/-- The trigger has a claimed run in which the condition takes part. -/
def Serves (s : MemTriggerStore) (trigger : TriggerDefinitionDTO) (condId : ConditionId) : Prop :=
  ∃ runId run, s.triggerRuns.lookup runId = some run ∧ run.triggerId = trigger.triggerId ∧
    TakesPart condId run

/-- The trigger fires on the snapshot, if it watches any of it. -/
def Fires (snapshot : List ValidCondition) (trigger : TriggerDefinitionDTO) : Prop :=
  trigger.logic = .or ∨ allConditionsValid snapshot trigger = true

/-- An evaluation of the snapshot consumes this valid condition of the store. -/
def Spends (s : MemTriggerStore) (snapshot : List ValidCondition) (vc : ValidCondition) : Prop :=
  s.validConditions.lookup vc.validConditionId = some vc ∧
    (∃ seen ∈ snapshot, seen.validConditionId = vc.validConditionId) ∧
    ∃ trigger, Watches init trigger vc.conditionId ∧ Fires snapshot trigger

/-- Every removed valid condition has a claimed run of each of its triggers. -/
def NothingLost (s s' : MemTriggerStore) : Prop :=
  ∀ key vc, s.validConditions.lookup key = some vc → s'.validConditions.lookup key = none →
    ∀ trigger, Watches init trigger vc.conditionId → Serves s' trigger vc.conditionId

/-- Every removed valid condition takes part in a run that each of its triggers claims at
once, from these records. -/
def NothingMissed (s s' : MemTriggerStore) (records : List TriggerRun) : Prop :=
  ∀ key vc, s.validConditions.lookup key = some vc → s'.validConditions.lookup key = none →
    ∀ trigger, Watches init trigger vc.conditionId → ∃ record ∈ records,
      record.triggerId = trigger.triggerId ∧ s'.Claimed record.triggerRunId ∧
        TakesPart vc.conditionId record

/-- Every trigger of what is consumed fires too, or has a run of it already. -/
def Undivided (s : MemTriggerStore) (snapshot : List ValidCondition) : Prop :=
  ∀ vc, Spends init s snapshot vc → ∀ trigger, Watches init trigger vc.conditionId →
    Fires snapshot trigger ∨ Serves s trigger vc.conditionId

/-- Claims are made of undivided snapshots. -/
def undivided : Guard triggerStore MemTriggerStore TriggerTask where
  start _ _ := True
  call s i c := match c with
    | .claimTriggerRunsWithRecords _ _ => ∀ t ∈ s.threads[i]?,
        ∀ snapshot ∈ ((deskDiscipline codec init).book t).snapshot,
          Undivided init s.shared snapshot
    | _ => True

variable {codec init}

/-- What one registered trigger plans was made for it, and it fires. -/
theorem madeFor_of_mem_candidatesOf {now : Timestamp} (hformed : ∀ vc ∈ snapshot, Formed codec vc)
    {trigger : TriggerDefinitionDTO}
    (hregistered : init.triggers.lookup trigger.triggerId = some trigger)
    {candidate : TriggerRun × TriggerExecution}
    (h : candidate ∈ candidatesOf codec now snapshot trigger) :
    MadeFor codec init candidate.1.triggerRunId candidate.1 trigger ∧ Fires snapshot trigger := by
  unfold candidatesOf at h
  split at h
  · rename_i hand
    split at h
    · rename_i hvalid
      obtain rfl := List.mem_singleton.mp h
      refine ⟨⟨hregistered, rfl, ?_, ?_, fun hor => ?_⟩, .inr hvalid⟩
      · refine ⟨Text.join '_' (sortTexts
          ((selectedOf snapshot trigger).map ValidCondition.validConditionId)), ?_⟩
        exact List.append_assoc _ _ _
      · intro _ condId hcond
        have hsome : (byCondition snapshot condId).isEmpty = false := by
          have hall := List.all_eq_true.mp hvalid condId hcond
          simpa using hall
        obtain ⟨vc, hhead⟩ : ∃ vc, (byCondition snapshot condId).head? = some vc := by
          cases hby : byCondition snapshot condId with
          | nil => simp [hby] at hsome
          | cons vc rest => exact ⟨vc, rfl⟩
        have hvc : vc.conditionId = condId := by
          have hmem := (List.mem_filter.mp (List.mem_of_mem_head? hhead)).2
          simpa using hmem
        refine ⟨participantFromValidCondition codec vc, ?_, by simp [hvc]⟩
        exact List.mem_map_of_mem (List.mem_filterMap.mpr ⟨condId, hcond, hhead⟩)
      · rw [hand] at hor
        cases hor
    · cases h
  · rename_i hor
    obtain ⟨condId, hcond, hvc⟩ := List.mem_flatMap.mp h
    obtain ⟨vc, hby, rfl⟩ := List.mem_map.mp hvc
    refine ⟨⟨hregistered, rfl, ⟨vc.validConditionId, List.append_assoc _ _ _⟩,
      fun hand => ?_, fun _ => ?_⟩, .inl hor⟩
    · rw [hor] at hand
      cases hand
    · refine ⟨vc, hformed vc (List.mem_filter.mp hby).1, rfl, ?_⟩
      exact ⟨participantFromValidCondition codec vc, by simp [plannedRun], by simp⟩

/-- A run id names one trigger, since ids of triggers are digests. -/
theorem MadeFor.trigger_eq {runId : TriggerRunId} {run run' : TriggerRun}
    (hclean : '_' ∉ trigger.triggerId.raw) (hclean' : '_' ∉ trigger'.triggerId.raw)
    (h : MadeFor codec init runId run trigger)
    (h' : MadeFor codec init runId run' trigger') : trigger = trigger' := by
  obtain ⟨rest, hrest⟩ := h.named
  obtain ⟨rest', hrest'⟩ := h'.named
  have hid : trigger.triggerId = trigger'.triggerId := by
    have heq := hrest.symm.trans hrest'
    simp only [List.append_assoc] at heq
    have hraw := (Text.append_cons_inj_left hclean hclean' (List.append_cancel_left heq)).1
    cases ha : trigger.triggerId
    cases hb : trigger'.triggerId
    rw [ha, hb] at hraw
    exact congrArg TriggerDefinitionId.mk hraw
  have hlookup := h.registered
  rw [hid, h'.registered] at hlookup
  exact (Option.some.inj hlookup).symm

theorem MadeFor.eq_of_owner {runId : TriggerRunId} {run : TriggerRun}
    (h : MadeFor codec init runId run trigger)
    (hregistered : init.triggers.lookup trigger'.triggerId = some trigger')
    (howner : run.triggerId = trigger'.triggerId) : trigger = trigger' := by
  have hlookup := h.registered
  rw [← h.owner, howner, hregistered] at hlookup
  exact (Option.some.inj hlookup).symm

/-- A trigger that fires plans a run for each condition it watches in the snapshot, and the
run with that id, whoever claimed it, has the condition. -/
theorem Watches.candidate (hhex : ∀ text, ∀ c ∈ codec.sha256Hex text, c ∈ hexDigits)
    (hinit : init.TriggersIndexed) {now : Timestamp} (hformed : ∀ vc ∈ snapshot, Formed codec vc)
    {trigger : TriggerDefinitionDTO} {vc : ValidCondition} (hvc : vc ∈ snapshot)
    (h : Watches init trigger vc.conditionId) (hfires : Fires snapshot trigger) :
    ∃ candidate ∈ candidatesOf codec now snapshot trigger, TakesPart vc.conditionId candidate.1 ∧
      ∀ run, MadeFor codec init candidate.1.triggerRunId run trigger →
        TakesPart vc.conditionId run := by
  cases hlogic : trigger.logic with
  | and =>
      have hvalid : allConditionsValid snapshot trigger = true := by
        rcases hfires with hor | hvalid
        · rw [hlogic] at hor
          cases hor
        · exact hvalid
      obtain ⟨candidate, hin⟩ : ∃ candidate, candidate ∈ candidatesOf codec now snapshot trigger :=
        ⟨_, by simp only [candidatesOf, hlogic, hvalid, if_true]; exact List.mem_singleton_self _⟩
      have hmade := (madeFor_of_mem_candidatesOf hformed h.registered hin).1
      exact ⟨candidate, hin, hmade.all hlogic _ h.references,
        fun run hrun => hrun.all hlogic _ h.references⟩
  | or =>
      obtain ⟨-, -, hplanned⟩ := @OrTrigger.planned codec init snapshot hinit trigger vc hvc
        ⟨h.registered, hlogic, h.references⟩
      obtain ⟨candidate, hin, hid⟩ := hplanned now
      have hown : ∀ run, MadeFor codec init candidate.1.triggerRunId run trigger →
          TakesPart vc.conditionId run := by
        intro run hrun
        obtain ⟨vc', hformed', hid', hpart⟩ := hrun.one hlogic
        have hsame : vc.validConditionId = vc'.validConditionId := by
          have hraw := congrArg TriggerRunId.raw (hid.symm.trans hid')
          exact List.append_cancel_left hraw
        rw [conditionId_of_validConditionId hhex (hformed vc hvc) hformed' hsame]
        exact hpart
      exact ⟨candidate, hin, hown _ (madeFor_of_mem_candidatesOf hformed h.registered hin).1, hown⟩

/-! ## One claim -/

/-- Every stored run was made for a trigger. -/
def AllMade (codec : Codec) (init s : MemTriggerStore) : Prop :=
  ∀ runId run, s.triggerRuns.lookup runId = some run →
    ∃ trigger, MadeFor codec init runId run trigger

section Claim

variable (hhex : ∀ text, ∀ c ∈ codec.sha256Hex text, c ∈ hexDigits) (hinit : init.TriggersIndexed)
  (hclean : ∀ id trigger, init.triggers.lookup id = some trigger → '_' ∉ trigger.triggerId.raw)
  {s s' : MemTriggerStore} {snapshot : List ValidCondition} {records : List TriggerRun}
  {consumed : List (List Char)} {flags : List Bool} (hformed : ∀ vc ∈ snapshot, Formed codec vc)
  (hplanned : Planned codec init snapshot records consumed)
  (hclaim : MemTriggerStore.ClaimsAndConsumes s records consumed flags s') {vc : ValidCondition}
  {trigger : TriggerDefinitionDTO}
include hinit hformed hplanned

/-- Planned records are made for triggers that fire. -/
theorem Planned.madeFor {record : TriggerRun} (hrecord : record ∈ records) :
    ∃ trigger, MadeFor codec init record.triggerRunId record trigger ∧
      Fires snapshot trigger := by
  obtain ⟨now, ordered, -, hordered, rfl, -⟩ := hplanned
  obtain ⟨candidate, hmem, rfl⟩ := List.mem_map.mp hrecord
  obtain ⟨trigger, htrigger, hin⟩ := List.mem_flatMap.mp hmem
  obtain ⟨vc, -, hfound⟩ := (hordered trigger).mp htrigger
  have hregistered := ((MemTriggerStore.mem_getTriggersForCondition hinit).mp hfound).2
  exact ⟨trigger, madeFor_of_mem_candidatesOf hformed hregistered hin⟩

include hhex

/-- What a planned claim consumes: what was seen, and belongs to a trigger that fires. -/
theorem Planned.mem_consumed_iff (hvc : Formed codec vc) :
    vc.validConditionId ∈ consumed ↔
      (∃ seen ∈ snapshot, seen.validConditionId = vc.validConditionId) ∧
        ∃ trigger, Watches init trigger vc.conditionId ∧ Fires snapshot trigger := by
  obtain ⟨now, ordered, -, hordered, -, rfl⟩ := hplanned
  rw [mem_sortTexts, List.mem_dedup, List.mem_flatMap]
  constructor
  · rintro ⟨trigger, htrigger, hconsumed⟩
    obtain ⟨seen', -, hfound⟩ := (hordered trigger).mp htrigger
    have hregistered := ((MemTriggerStore.mem_getTriggersForCondition hinit).mp hfound).2
    have hby : Fires snapshot trigger ∧ ∃ condId ∈ trigger.conditionIds, vc.validConditionId ∈
        (byCondition snapshot condId).map ValidCondition.validConditionId := by
      unfold consumedBy at hconsumed
      split at hconsumed
      · split at hconsumed
        · rename_i hvalid
          exact ⟨.inr hvalid, List.mem_flatMap.mp hconsumed⟩
        · cases hconsumed
      · rename_i hor
        exact ⟨.inl hor, List.mem_flatMap.mp hconsumed⟩
    obtain ⟨hfires, condId, hcond, hmem⟩ := hby
    obtain ⟨seen, hseen, hid⟩ := List.mem_map.mp hmem
    obtain ⟨hsnapshot, hcondId⟩ := List.mem_filter.mp hseen
    have hsame := conditionId_of_validConditionId hhex (hformed seen hsnapshot) hvc hid
    have hcond' : vc.conditionId ∈ trigger.conditionIds := by
      rw [← hsame, show seen.conditionId = condId by simpa using hcondId]
      exact hcond
    exact ⟨⟨seen, hsnapshot, hid⟩, trigger, ⟨hregistered, hcond'⟩, hfires⟩
  · rintro ⟨⟨seen, hseen, hid⟩, trigger, hwatches, hfires⟩
    have hsame := conditionId_of_validConditionId hhex (hformed seen hseen) hvc hid
    have hfound := hinit.found hwatches.registered hwatches.references
    refine ⟨trigger, (hordered trigger).mpr ⟨seen, hseen, by rw [hsame]; exact hfound⟩, ?_⟩
    have hmem : vc.validConditionId ∈ trigger.conditionIds.flatMap fun condId =>
        (byCondition snapshot condId).map ValidCondition.validConditionId := by
      refine List.mem_flatMap.mpr ⟨_, hwatches.references, List.mem_map.mpr ⟨seen, ?_, hid⟩⟩
      exact List.mem_filter.mpr ⟨hseen, by simpa using hsame⟩
    unfold consumedBy
    rcases hfires with hor | hvalid
    · rw [hor]
      exact hmem
    · cases trigger.logic with
      | and => simp only [hvalid, if_true, hmem]
      | or => exact hmem

/-- A trigger that fires plans a record for each condition it watches in the snapshot. -/
theorem Planned.record_of_fires (hvc : vc ∈ snapshot) (h : Watches init trigger vc.conditionId)
    (hfires : Fires snapshot trigger) :
    ∃ record ∈ records, record.triggerId = trigger.triggerId ∧ TakesPart vc.conditionId record ∧
      ∀ run, MadeFor codec init record.triggerRunId run trigger →
        TakesPart vc.conditionId run := by
  obtain ⟨now, ordered, -, hordered, rfl, -⟩ := hplanned
  obtain ⟨candidate, hin, hpart, hown⟩ := h.candidate hhex hinit hformed hvc hfires
  have hmem := (hordered trigger).mpr ⟨vc, hvc, hinit.found h.registered h.references⟩
  exact ⟨candidate.1, List.mem_map_of_mem (List.mem_flatMap.mpr ⟨trigger, hmem, hin⟩),
    (madeFor_of_mem_candidatesOf hformed h.registered hin).1.owner, hpart, hown⟩

include hclaim

omit hhex in
theorem AllMade.claim (h : AllMade codec init s) : AllMade codec init s' := by
  intro runId run hrun
  rcases hclaim.runs runId run hrun with hold | ⟨-, hnew⟩
  · exact h runId run hold
  · obtain ⟨trigger, hmade, -⟩ := hplanned.madeFor hinit hformed hnew
    rw [hclaim.recorded.keyed runId run hrun] at hmade
    exact ⟨trigger, hmade⟩

include hclean in
/-- A trigger that fires has a run of each condition it watches in the snapshot. -/
theorem serves_of_fires (hmade : AllMade codec init s) (hvc : vc ∈ snapshot)
    (h : Watches init trigger vc.conditionId) (hfires : Fires snapshot trigger) :
    Serves s' trigger vc.conditionId ∧ ∃ record ∈ records,
      record.triggerId = trigger.triggerId ∧ s'.Claimed record.triggerRunId ∧
        TakesPart vc.conditionId record := by
  obtain ⟨record, hrecord, howner, hpart, hown⟩ :=
    hplanned.record_of_fires hhex hinit hformed hvc h hfires
  have hclaimed : s'.Claimed record.triggerRunId :=
    (hclaim.claimed _).mpr (.inr ⟨record, hrecord, rfl⟩)
  refine ⟨?_, record, hrecord, howner, hclaimed, hpart⟩
  -- whoever claimed the run first, it is one of this trigger
  obtain ⟨run, hrun⟩ := Option.isSome_iff_exists.mp ((hclaim.recorded.claimed _).mpr hclaimed)
  obtain ⟨trigger₁, hmade₁, -⟩ := hplanned.madeFor hinit hformed hrecord
  obtain ⟨trigger₂, hmade₂⟩ :=
    hmade.claim hinit hformed hplanned hclaim record.triggerRunId run hrun
  have htrigger₁ := hmade₁.eq_of_owner h.registered howner
  have htrigger₂ : trigger₂ = trigger₁ :=
    hmade₂.trigger_eq (hclean _ _ hmade₂.registered) (hclean _ _ hmade₁.registered) hmade₁
  rw [htrigger₂, htrigger₁] at hmade₂
  exact ⟨_, run, hrun, hmade₂.owner, hown run hmade₂⟩

variable (hstored : ∀ key vc, s.validConditions.lookup key = some vc →
  vc.validConditionId = key ∧ Formed codec vc)
include hstored

/-- What a claim removes from the store. -/
theorem removed_iff_spends {key : List Char} :
    s.validConditions.lookup key = some vc ∧ s'.validConditions.lookup key = none ↔
      key = vc.validConditionId ∧ Spends init s snapshot vc := by
  constructor
  · rintro ⟨hlookup, hgone⟩
    obtain ⟨rfl, hvc⟩ := hstored key vc hlookup
    have hconsumed : vc.validConditionId ∈ consumed := by
      by_contra hkept
      rw [hclaim.valid, if_neg hkept, hlookup] at hgone
      cases hgone
    exact ⟨rfl, hlookup, (hplanned.mem_consumed_iff hhex hinit hformed hvc).mp hconsumed⟩
  · rintro ⟨rfl, hlookup, hspends⟩
    have hvc := (hstored _ vc hlookup).2
    have hconsumed := (hplanned.mem_consumed_iff hhex hinit hformed hvc).mpr hspends
    exact ⟨hlookup, by rw [hclaim.valid, if_pos hconsumed]⟩

include hclean

/-- **One claim** loses nothing exactly when its snapshot is undivided, and misses nothing
exactly when every trigger of what it consumes fires. -/
theorem claim_lost_iff (hmade : AllMade codec init s)
    (hkept : ∀ runId run, s.triggerRuns.lookup runId = some run →
      s'.triggerRuns.lookup runId = some run) :
    (NothingLost init s s' ↔ Undivided init s snapshot) ∧
      (NothingMissed init s s' records ↔ ∀ vc, Spends init s snapshot vc →
        ∀ trigger, Watches init trigger vc.conditionId → Fires snapshot trigger) := by
  have hseen : ∀ {vc : ValidCondition}, Spends init s snapshot vc →
      ∃ seen ∈ snapshot, seen.conditionId = vc.conditionId := by
    rintro vc ⟨hlookup, ⟨seen, hmem, hid⟩, -⟩
    exact ⟨seen, hmem, conditionId_of_validConditionId hhex (hformed seen hmem)
      (hstored _ vc hlookup).2 hid⟩
  have hremoved : ∀ {vc : ValidCondition}, Spends init s snapshot vc →
      s.validConditions.lookup vc.validConditionId = some vc ∧
        s'.validConditions.lookup vc.validConditionId = none := fun hspends =>
    (removed_iff_spends hhex hinit hformed hplanned hclaim hstored).mpr ⟨rfl, hspends⟩
  have hnew : ∀ {record : TriggerRun} {trigger : TriggerDefinitionDTO}, record ∈ records →
      init.triggers.lookup trigger.triggerId = some trigger →
      record.triggerId = trigger.triggerId → Fires snapshot trigger := by
    intro record trigger hrecord hregistered howner
    obtain ⟨trigger', hmade', hfires⟩ := hplanned.madeFor hinit hformed hrecord
    rw [← hmade'.eq_of_owner hregistered howner]
    exact hfires
  constructor
  · constructor
    · intro hlost vc hspends trigger hwatches
      obtain ⟨hlookup, hgone⟩ := hremoved hspends
      obtain ⟨runId, run, hrun, howner, hpart⟩ := hlost _ vc hlookup hgone trigger hwatches
      rcases hclaim.runs runId run hrun with hold | ⟨-, hrecord⟩
      · exact .inr ⟨runId, run, hold, howner, hpart⟩
      · exact .inl (hnew hrecord hwatches.registered howner)
    · intro hundivided key vc hlookup hgone trigger hwatches
      obtain ⟨-, hspends⟩ :=
        (removed_iff_spends hhex hinit hformed hplanned hclaim hstored).mp ⟨hlookup, hgone⟩
      rcases hundivided vc hspends trigger hwatches with hfires | hserved
      · obtain ⟨seen, hmem, hcond⟩ := hseen hspends
        rw [← hcond] at hwatches ⊢
        exact (serves_of_fires hhex hinit hclean hformed hplanned hclaim hmade hmem
          hwatches hfires).1
      · obtain ⟨runId, run, hrun, hserves⟩ := hserved
        exact ⟨runId, run, hkept runId run hrun, hserves⟩
  · constructor
    · intro hmissed vc hspends trigger hwatches
      obtain ⟨hlookup, hgone⟩ := hremoved hspends
      obtain ⟨record, hrecord, howner, -⟩ := hmissed _ vc hlookup hgone trigger hwatches
      exact hnew hrecord hwatches.registered howner
    · intro hall key vc hlookup hgone trigger hwatches
      obtain ⟨-, hspends⟩ :=
        (removed_iff_spends hhex hinit hformed hplanned hclaim hstored).mp ⟨hlookup, hgone⟩
      have hfires := hall vc hspends trigger hwatches
      obtain ⟨seen, hmem, hcond⟩ := hseen hspends
      rw [← hcond] at hwatches ⊢
      exact (serves_of_fires hhex hinit hclean hformed hplanned hclaim hmade hmem
        hwatches hfires).2

end Claim

/-! ## Runs -/

section Runs

variable {G : Guard triggerStore MemTriggerStore TriggerTask}
  {s s' : System triggerStore MemTriggerStore TriggerTask} {croner : Croner}

/-- A call that claims nothing removes no valid condition and keeps the runs. -/
theorem exec_keeps (env : TriggerEnv) {c : TriggerCall}
    (hc : ∀ records consumed, c ≠ .claimTriggerRunsWithRecords records consumed)
    (t : MemTriggerStore) :
    (MemTriggerStore.exec env c t).2.triggerRuns = t.triggerRuns ∧
      ∀ key, (t.validConditions.lookup key).isSome = true →
        ((MemTriggerStore.exec env c t).2.validConditions.lookup key).isSome = true := by
  cases c
  case claimTriggerRunsWithRecords records consumed => exact absurd rfl (hc records consumed)
  case recordValidCondition vc =>
    refine ⟨rfl, fun key hkey => ?_⟩
    show ((t.recordValidCondition vc).validConditions.lookup key).isSome = true
    rw [MemTriggerStore.lookup_record]
    split
    · rfl
    · exact hkey
  case storeCronExecution condId time last =>
    simp only [MemTriggerStore.exec, MemTriggerStore.storeCronExecution]
    split
    · exact ⟨rfl, fun _ hkey => hkey⟩
    · exact ⟨rfl, fun _ hkey => hkey⟩
  all_goals exact ⟨rfl, fun _ hkey => hkey⟩

/-- The rule at work: stored runs were made for their triggers. -/
theorem allMadeUpheld (hinit : init.TriggersIndexed)
    (hstored : ∀ key vc, init.validConditions.lookup key = some vc →
      vc.validConditionId = key ∧ Formed codec vc)
    (hidle : init.triggerRunClaims = ∅ ∧ init.triggerRuns = ∅) (croner : Croner)
    (G : Guard triggerStore MemTriggerStore TriggerTask) :
    (deskDiscipline codec init).Upheld (Desk.Settled codec init)
      (fun s books => RunsInv codec init s books ∧ AllMade codec init s)
      (triggerMachine croner codec) G ⟨init, []⟩ := by
  refine (runsUpheld_of_stored codec hinit hstored hidle croner G).and
    (fun s _ => AllMade codec init s) ?_ (fun _ _ h => h) ?_
  · intro runId run hrun
    simp [hidle.2] at hrun
  · intro s i env t c before after hturn hinv h
    cases c
    case claimTriggerRunsWithRecords records consumed =>
      obtain ⟨-, -, snapshot, hsnapshot, hplanned⟩ := hturn.permitted
      have hformed := hinv.snapshots _ (by simp) snapshot hsnapshot
      exact h.claim hinit hformed hplanned
        (MemTriggerStore.claim_claimsAndConsumes env.clock.instant hinv.runs records consumed)
    all_goals
      intro runId run hrun
      change (MemTriggerStore.exec env _ s.shared).2.triggerRuns.lookup runId = some run at hrun
      rw [(exec_keeps env (by simp) s.shared).1] at hrun
      exact h runId run hrun

section Steps

variable (hhex : ∀ text, ∀ c ∈ codec.sha256Hex text, c ∈ hexDigits) (hinit : init.TriggersIndexed)
  (hclean : ∀ id trigger, init.triggers.lookup id = some trigger → '_' ∉ trigger.triggerId.raw)
  (hstored : ∀ key vc, init.validConditions.lookup key = some vc →
    vc.validConditionId = key ∧ Formed codec vc)
  (hidle : init.triggerRunClaims = ∅ ∧ init.triggerRuns = ∅)
  (hreach : Reachable (triggerMachine croner codec)
    (Guard.top triggerStore MemTriggerStore TriggerTask) ⟨init, []⟩ s)
include hhex hinit hclean hstored hidle hreach

/-- A claim in a reachable state, made of the snapshot its evaluation has taken. -/
theorem claim_step_iff (env : TriggerEnv) {i : Nat} {t : Thread triggerStore TriggerTask}
    {records : List TriggerRun} {consumed : List (List Char)}
    {k : List Bool → Prog triggerStore Unit} (ht : s.threads[i]? = some t)
    (hprog : t.prog = .call (.claimTriggerRunsWithRecords records consumed) k) :
    ∃ snapshot, ((deskDiscipline codec init).book t).snapshot = some snapshot ∧
      ((NothingLost init s.shared
          (s.shared.claimTriggerRunsWithRecords env.clock.instant records consumed).2 ↔
        Undivided init s.shared snapshot) ∧
      (NothingMissed init s.shared
          (s.shared.claimTriggerRunsWithRecords env.clock.instant records consumed).2 records ↔
        ∀ vc, Spends init s.shared snapshot vc → ∀ trigger, Watches init trigger vc.conditionId →
          Fires snapshot trigger)) := by
  obtain ⟨before, after, hturn, hinv, hmade⟩ :=
    (allMadeUpheld hinit hstored hidle croner _).turn hreach ht hprog trivial
  obtain ⟨-, -, snapshot, hsnapshot, hplanned⟩ := hturn.permitted
  have hformed := hinv.snapshots _ (by simp) snapshot hsnapshot
  have hclaim := MemTriggerStore.claim_claimsAndConsumes env.clock.instant hinv.runs records
    consumed
  refine ⟨snapshot, hsnapshot, claim_lost_iff hhex hinit hclean hformed hplanned hclaim hinv.stored
    hmade ?_⟩
  intro runId run hrun
  exact MemTriggerStore.lookup_claimRuns_of_some _ records hinv.runs hrun

/-- **One step** loses nothing exactly when the guard allows it. -/
theorem step_lost_iff {l : Label TriggerEnv TriggerTask}
    (hstep : s.apply (triggerMachine croner codec) l = some s') :
    NothingLost init s.shared s'.shared ↔ (undivided codec init).Allows s l := by
  obtain ⟨task, rfl, rfl⟩ | ⟨i, env, t, c, k, rfl, ht, hprog, rfl⟩ := System.apply_cases hstep
  · refine ⟨fun _ => trivial, fun _ key vc hlookup hgone => ?_⟩
    rw [hlookup] at hgone
    cases hgone
  · have hnext : t.next? = some c := by simp [Thread.next?, hprog]
    by_cases hc : ∃ records consumed, c = .claimTriggerRunsWithRecords records consumed
    · obtain ⟨records, consumed, rfl⟩ := hc
      obtain ⟨snapshot, hsnapshot, hlost, -⟩ :=
        claim_step_iff hhex hinit hclean hstored hidle hreach env ht hprog
      refine hlost.trans ⟨?_, ?_⟩
      · intro hundivided t' ht' c' hc'
        rw [ht] at ht'
        obtain rfl := Option.some.inj ht'
        rw [hnext] at hc'
        obtain rfl := Option.some.inj hc'
        intro t' ht' snapshot' hsnapshot'
        rw [ht] at ht'
        obtain rfl := Option.some.inj ht'
        rw [hsnapshot] at hsnapshot'
        obtain rfl := Option.some.inj hsnapshot'
        exact hundivided
      · intro hallows
        exact hallows t ht _ hnext t ht snapshot hsnapshot
    · -- other calls remove nothing
      have hkeeps := exec_keeps env (fun records consumed heq => hc ⟨records, consumed, heq⟩)
        s.shared
      refine ⟨fun _ t' ht' c' hc' => ?_, fun _ key vc hlookup hgone => ?_⟩
      · rw [ht] at ht'
        obtain rfl := Option.some.inj ht'
        rw [hnext] at hc'
        obtain rfl := Option.some.inj hc'
        cases c
        case claimTriggerRunsWithRecords records consumed => exact absurd ⟨_, _, rfl⟩ hc
        all_goals trivial
      · have hsome := hkeeps.2 key (by rw [hlookup]; rfl)
        change ((MemTriggerStore.exec env c s.shared).2.validConditions.lookup key) = none at hgone
        rw [hgone] at hsome
        cases hsome

end Steps

/-- The valid condition was pending from the start, or some report has recorded it. -/
def Known (init : MemTriggerStore) (s : System triggerStore MemTriggerStore TriggerTask)
    (vc : ValidCondition) : Prop :=
  (∃ key, init.validConditions.lookup key = some vc) ∨
    ∃ t ∈ s.threads, vc ∈ t.log.filterMap recordedBy?

/-- A valid condition is known after a step if it was before, or is recorded now. -/
theorem Known.of_step {l : Label TriggerEnv TriggerTask} {vc : ValidCondition}
    (hstep : s.apply (triggerMachine croner codec) l = some s') (h : Known init s' vc) :
    Known init s vc ∨ (s'.shared.validConditions.lookup vc.validConditionId).isSome = true := by
  rcases h with hpending | ⟨t', ht', hvc⟩
  · exact .inl (.inl hpending)
  obtain ⟨task, rfl, rfl⟩ | ⟨i, env, t, c, k, rfl, ht, hprog, rfl⟩ := System.apply_cases hstep
  · rcases List.mem_append.mp ht' with hold | hnew
    · exact .inl (.inr ⟨t', hold, hvc⟩)
    · rw [List.mem_singleton.mp hnew] at hvc
      cases hvc
  · rcases List.mem_or_eq_of_mem_set ht' with hold | rfl
    · exact .inl (.inr ⟨t', hold, hvc⟩)
    · have hthread := List.mem_of_getElem? ht
      rw [List.filterMap_cons] at hvc
      split at hvc
      · exact .inl (.inr ⟨t, hthread, hvc⟩)
      · rename_i recorded hrecorded
        rcases List.mem_cons.mp hvc with rfl | hvc
        · cases c
          case recordValidCondition vc' =>
            obtain rfl := Option.some.inj hrecorded
            right
            show ((s.shared.recordValidCondition vc').validConditions.lookup _).isSome = true
            rw [MemTriggerStore.lookup_record, if_pos rfl]
            rfl
          all_goals cases hrecorded
        · exact .inl (.inr ⟨t, hthread, hvc⟩)

/-- In every run of undivided claims, a valid condition is pending or has runs of all its
triggers. -/
theorem known_kept (hhex : ∀ text, ∀ c ∈ codec.sha256Hex text, c ∈ hexDigits)
    (hinit : init.TriggersIndexed)
    (hclean : ∀ id trigger, init.triggers.lookup id = some trigger → '_' ∉ trigger.triggerId.raw)
    (hstored : ∀ key vc, init.validConditions.lookup key = some vc →
      vc.validConditionId = key ∧ Formed codec vc)
    (hidle : init.triggerRunClaims = ∅ ∧ init.triggerRuns = ∅)
    (hreach : Reachable (triggerMachine croner codec) (undivided codec init) ⟨init, []⟩ s)
    {vc : ValidCondition} (hknown : Known init s vc) :
    (s.shared.validConditions.lookup vc.validConditionId).isSome = true ∨
      ∀ trigger, Watches init trigger vc.conditionId → Serves s.shared trigger vc.conditionId := by
  induction hreach with
  | refl =>
      rcases hknown with ⟨key, hlookup⟩ | ⟨t, ht, -⟩
      · left
        rw [(hstored key vc hlookup).1, hlookup]
        rfl
      · cases ht
  | @next s s' l hreach hallow happly ih =>
      have htop : Reachable (triggerMachine croner codec)
          (Guard.top triggerStore MemTriggerStore TriggerTask) ⟨init, []⟩ s :=
        hreach.mono (fun _ _ _ => trivial) fun _ _ _ _ => trivial
      obtain ⟨-, hinv⟩ := (runsUpheld_of_stored codec hinit hstored hidle croner _).obeyed htop
      have hlost := (step_lost_iff hhex hinit hclean hstored hidle htop happly).mpr hallow
      rcases hknown.of_step happly with hbefore | hnew
      · rcases ih hbefore with hpending | hserved
        · obtain ⟨stored, hlookup⟩ := Option.isSome_iff_exists.mp hpending
          cases hafter : s'.shared.validConditions.lookup vc.validConditionId with
          | some _ => exact .inl rfl
          | none =>
              have hvc : Formed codec vc := by
                rcases hbefore with ⟨key, hkey⟩ | ⟨t, ht, hrecorded⟩
                · exact (hstored key vc hkey).2
                · have hbook : vc ∈ ((deskDiscipline codec init).book t).recorded := by
                    rw [book_recorded]
                    exact hrecorded
                  exact hinv.recorded _ (List.mem_map_of_mem ht) vc hbook
              obtain ⟨hid, hformed⟩ := hinv.stored _ stored hlookup
              have hcond := conditionId_of_validConditionId hhex hformed hvc hid
              right
              intro trigger hwatches
              rw [← hcond] at hwatches ⊢
              exact hlost _ stored hlookup hafter trigger hwatches
        · -- claimed runs stay
          right
          intro trigger hwatches
          obtain ⟨runId, run, hrun, hserves⟩ := hserved trigger hwatches
          refine ⟨runId, run, ?_, hserves⟩
          obtain ⟨task, rfl, rfl⟩ | ⟨i, env, t, c, k, rfl, ht, hprog, rfl⟩ :=
            System.apply_cases happly
          · exact hrun
          · cases c
            case claimTriggerRunsWithRecords records consumed =>
              exact MemTriggerStore.lookup_claimRuns_of_some _ records hinv.runs hrun
            all_goals
              show (MemTriggerStore.exec env _ s.shared).2.triggerRuns.lookup runId = some run
              rw [(exec_keeps env (by simp) s.shared).1]
              exact hrun
      · exact .inl hnew

/-- A store with registered triggers and pending conditions, before any evaluation. -/
def prepared (codec : Codec) (conditions : List TriggerCondition)
    (triggers : List TriggerDefinitionDTO) (pending : List (ConditionId × ConditionContext)) :
    MemTriggerStore :=
  .withPending codec (.withTriggers codec conditions triggers) pending

theorem mem_of_lookup_prepared (codec : Codec) (conditions : List TriggerCondition)
    {triggers : List TriggerDefinitionDTO} (pending : List (ConditionId × ConditionContext))
    {id : TriggerDefinitionId} {trigger : TriggerDefinitionDTO}
    (h : (prepared codec conditions triggers pending).triggers.lookup id = some trigger) :
    trigger ∈ triggers := by
  have hempty := (MemTriggerStore.withTriggers_idle codec conditions triggers).1
  obtain ⟨valid, heq, -⟩ := MemTriggerStore.withPending_eq codec hempty pending
  rw [prepared, heq] at h
  exact MemTriggerStore.mem_of_lookup_withTriggers codec conditions h

/-- **Shared conditions.**  In every run over built triggers and any pending conditions: a
step loses no valid condition exactly when every trigger of what it consumes fires with it
or has had a run with the condition; a claim gives all triggers of what it consumes a run
exactly when they all fire.  So in a run of such steps every valid condition is still
pending or has runs of all its triggers. -/
theorem shared_conditions_kept (hhex : ∀ text, ∀ c ∈ codec.sha256Hex text, c ∈ hexDigits)
    (croner : Croner) (conditions : List TriggerCondition) {triggers : List TriggerDefinitionDTO}
    (hbuilt : AllBuilt codec triggers) (pending : List (ConditionId × ConditionContext)) :
    let init := prepared codec conditions triggers pending
    (∀ s : System triggerStore MemTriggerStore TriggerTask, Reachable (triggerMachine croner codec)
        (Guard.top triggerStore MemTriggerStore TriggerTask) ⟨init, []⟩ s →
      (∀ l s', s.apply (triggerMachine croner codec) l = some s' →
        (NothingLost init s.shared s'.shared ↔ (undivided codec init).Allows s l)) ∧
      ∀ (i : Nat) (env : TriggerEnv) t records consumed k, s.threads[i]? = some t →
        t.prog = .call (.claimTriggerRunsWithRecords records consumed) k →
        ∃ snapshot, ((deskDiscipline codec init).book t).snapshot = some snapshot ∧
          (NothingMissed init s.shared
              (s.shared.claimTriggerRunsWithRecords env.clock.instant records consumed).2 records ↔
            ∀ vc, Spends init s.shared snapshot vc → ∀ trigger,
              Watches init trigger vc.conditionId → Fires snapshot trigger)) ∧
    ∀ s : System triggerStore MemTriggerStore TriggerTask,
      Reachable (triggerMachine croner codec) (undivided codec init) ⟨init, []⟩ s →
      ∀ vc, Known init s vc →
        (s.shared.validConditions.lookup vc.validConditionId).isSome = true ∨
          ∀ trigger, Watches init trigger vc.conditionId →
            Serves s.shared trigger vc.conditionId := by
  intro init
  have hidle := MemTriggerStore.withTriggers_idle codec conditions triggers
  have hindexed := MemTriggerStore.withTriggers_indexed codec conditions triggers
  obtain ⟨valid, heq, hvalid⟩ := MemTriggerStore.withPending_eq codec hidle.1 pending
  have hstore : init = { MemTriggerStore.withTriggers codec conditions triggers with
      validConditions := valid } := heq
  have hinit : init.TriggersIndexed := by
    rw [hstore]
    exact ⟨hindexed.keyed, hindexed.indexed⟩
  have hstored : ∀ key vc, init.validConditions.lookup key = some vc →
      vc.validConditionId = key ∧ Formed codec vc := by
    rw [hstore]
    exact hvalid
  have hnone : init.triggerRunClaims = ∅ ∧ init.triggerRuns = ∅ := by
    rw [hstore]
    exact hidle.2
  have hclean : ∀ id trigger, init.triggers.lookup id = some trigger →
      '_' ∉ trigger.triggerId.raw := by
    intro id trigger hlookup hmem
    obtain ⟨b, target, hbuild⟩ := hbuilt _ (mem_of_lookup_prepared codec conditions pending hlookup)
    unfold TriggerBuilder.build at hbuild
    split at hbuild
    · cases hbuild
    · obtain rfl := Except.ok.inj hbuild
      exact absurd (hhex _ _ hmem) (by decide)
  refine ⟨fun s hreach => ⟨fun l s' hstep => ?_, fun i env t records consumed k ht hprog => ?_⟩,
    fun s hreach vc hknown => ?_⟩
  · exact step_lost_iff hhex hinit hclean hstored hnone hreach hstep
  · obtain ⟨snapshot, hsnapshot, -, hmissed⟩ :=
      claim_step_iff hhex hinit hclean hstored hnone hreach env ht hprog
    exact ⟨snapshot, hsnapshot, hmissed⟩
  · exact known_kept hhex hinit hclean hstored hnone hreach hknown

end Runs

end Shared

/-! ## Two triggers on one event -/

/-- The SHA-256 digests that the examples need. -/
def sharedDigests : List (List Char × List Char) :=
  [("rust::mail.send|event#a#static_no_args,|OR".toList,
      "097a4231aa6d8909330b6f57e6c7b3d2e31bfa1a7d5650f3d5132a383a0d2f20".toList),
    ("rust::mail.send|event#a#static_no_args,event#b#static_no_args,|AND".toList,
      "2fb6033ff0182c25e768fad9419c2e2e70e57c190624c1a126385d802bb1ac70".toList),
    (sampleInput, sampleDigest),
    ("event_ctx:e-2".toList,
      "8d269dc10d987f56d5ec2153844418ffc4d9d4563d783aebec6b74956f032048".toList)]

def sharedCodec : Codec :=
  { plainCodec with
    sha256Hex := fun text => (sharedDigests.lookup text).getD ('f' :: unaryText text) }

theorem sharedCodec_hex : ∀ text, ∀ c ∈ sharedCodec.sha256Hex text, c ∈ hexDigits := by
  have hall : (sharedDigests.all fun entry => entry.2.all (hexDigits.contains ·)) = true := by
    decide +kernel
  intro text c hc
  change c ∈ (sharedDigests.lookup text).getD ('f' :: unaryText text) at hc
  cases hfound : sharedDigests.lookup text with
  | none =>
      rw [hfound] at hc
      rcases List.mem_cons.mp hc with rfl | hc
      · decide
      · exact unaryText_hex text c hc
  | some digest =>
      rw [hfound] at hc
      obtain ⟨_, _, hentries, -⟩ := List.lookup_eq_some_iff.mp hfound
      have hentry := List.all_eq_true.mp hall (text, digest) (by rw [hentries]; simp)
      exact List.contains_iff_mem.mp (List.all_eq_true.mp hentry c hc)

/-- Mail on `a`, and mail on both `a` and `b`. -/
def mailBuilders : List TriggerBuilder :=
  [⟨[onEvent "a"], .or, none⟩, ⟨[onEvent "a", onEvent "b"], .and, none⟩]

def mailTriggers : List TriggerDefinitionDTO :=
  mailBuilders.filterMap fun b => (b.build sharedCodec ⟨.rust, "mail", "send"⟩).toOption

theorem mailTriggers_built : AllBuilt sharedCodec mailTriggers := by
  intro trigger h
  obtain ⟨b, -, hb⟩ := List.mem_filterMap.mp h
  refine ⟨b, ⟨.rust, "mail", "send"⟩, ?_⟩
  cases hbuild : b.build sharedCodec ⟨.rust, "mail", "send"⟩ with
  | error e =>
      rw [hbuild] at hb
      cases hb
  | ok t =>
      rw [hbuild] at hb
      exact congrArg Except.ok (Option.some.inj hb)

/-- The trigger that waits for both events. -/
def bothTrigger : TriggerDefinitionDTO :=
  let conditionIds := [(onEvent "a").conditionId sharedCodec, (onEvent "b").conditionId sharedCodec]
  ⟨computeTriggerId sharedCodec ⟨.rust, "mail", "send"⟩ conditionIds .and,
    ⟨.rust, "mail", "send"⟩, conditionIds, .and, none⟩

/-- Both triggers, with some pending events of given ids and codes. -/
def mailStore (pending : List (String × String)) : MemTriggerStore :=
  prepared sharedCodec [onEvent "a", onEvent "b"] mailTriggers <| pending.map fun entry =>
    ((onEvent entry.2).conditionId sharedCodec, .event ⟨entry.1, entry.2, .null⟩)

instance (snapshot : List ValidCondition) (trigger : TriggerDefinitionDTO) :
    Decidable (Fires snapshot trigger) :=
  inferInstanceAs (Decidable (_ ∨ _))

/-- Both events are pending: one claim consumes both, and both triggers have their runs. -/
theorem shared_conditions_kept_mail :
    ∃ s s', Reachable (triggerMachine idleCroner sharedCodec)
        (Guard.top triggerStore MemTriggerStore TriggerTask)
        ⟨mailStore [("e-1", "a"), ("e-2", "b")], []⟩ s ∧
      s.apply (triggerMachine idleCroner sharedCodec) (.step 0 default) = some s' ∧
      s.shared.validConditions.keys.length = 2 ∧ s'.shared.validConditions.keys = [] ∧
      NothingLost (mailStore [("e-1", "a"), ("e-2", "b")]) s.shared s'.shared := by
  obtain ⟨s, hreach, hclaim, hfires⟩ := Reachable.exists_of_run
    (triggerMachine idleCroner sharedCodec) (Guard.top triggerStore MemTriggerStore TriggerTask)
    ⟨mailStore [("e-1", "a"), ("e-2", "b")], []⟩ (.start .evaluate :: Label.steps 0 6 default)
    (fun s => (s.apply (triggerMachine idleCroner sharedCodec) (.step 0 default)).any (fun s' =>
        decide (s.shared.validConditions.keys.length = 2 ∧ s'.shared.validConditions.keys = [])) = true ∧
      ∀ t ∈ s.threads[0]?, ∀ snapshot ∈ ((deskDiscipline sharedCodec
        (mailStore [("e-1", "a"), ("e-2", "b")])).book t).snapshot,
          ∀ trigger ∈ mailTriggers, Fires snapshot trigger)
    (Guard.allowsAll_top _ _ _) (by decide +kernel)
  obtain ⟨s', hstep, hgone⟩ := (Option.any_eq_true _ _).mp hclaim
  obtain ⟨hboth, hempty⟩ := of_decide_eq_true hgone
  have hallows : (undivided sharedCodec (mailStore [("e-1", "a"), ("e-2", "b")])).Allows s
      (.step 0 default : Label TriggerEnv TriggerTask) := by
    intro t ht c hc
    cases c
    case claimTriggerRunsWithRecords records consumed =>
      intro t' ht' snapshot hsnapshot vc hspends trigger hwatches
      exact .inl (hfires t' ht' snapshot hsnapshot trigger
        (mem_of_lookup_prepared sharedCodec _ _ hwatches.registered))
    all_goals trivial
  have hkept := shared_conditions_kept sharedCodec_hex idleCroner [onEvent "a", onEvent "b"]
    mailTriggers_built ([("e-1", "a"), ("e-2", "b")].map fun entry =>
      ((onEvent entry.2).conditionId sharedCodec, .event ⟨entry.1, entry.2, .null⟩))
  exact ⟨s, s', hreach, hstep, hboth, hempty, ((hkept.1 s hreach).1 _ s' hstep).mpr hallows⟩

/-- One evaluator at a time. -/
def oneEvaluator : Guard triggerStore MemTriggerStore TriggerTask where
  start s task := task = .evaluate → ∀ t ∈ s.threads, t.task = .evaluate → t.next? = none
  call _ _ _ := True

instance (s : System triggerStore MemTriggerStore TriggerTask) (task : TriggerTask) :
    Decidable (oneEvaluator.start s task) :=
  inferInstanceAs (Decidable (_ → _))

instance (s : System triggerStore MemTriggerStore TriggerTask) (i : Nat) (c : TriggerCall) :
    Decidable (oneEvaluator.call s i c) :=
  inferInstanceAs (Decidable True)

/-- Event `a` is consumed by the trigger on `a` alone, while the trigger on both events
waits for `b`: it has no run of this event and will never have one. -/
theorem shared_condition_lost :
    ¬ ∀ s l s', Reachable (triggerMachine idleCroner sharedCodec) oneEvaluator
        ⟨mailStore [], []⟩ s →
      s.apply (triggerMachine idleCroner sharedCodec) l = some s' →
      NothingLost (mailStore []) s.shared s'.shared := by
  intro h
  obtain ⟨s, hreach, hlost⟩ := Reachable.exists_of_run (triggerMachine idleCroner sharedCodec)
    oneEvaluator ⟨mailStore [], []⟩
    (emitted 0 "a" "e-1" ++ .start .evaluate :: Label.steps 1 5 default)
    (fun s => (s.apply (triggerMachine idleCroner sharedCodec) (.step 1 default)).any (fun s' =>
      decide ((∃ entry ∈ s.shared.validConditions.entries,
          entry.2.conditionId = (onEvent "a").conditionId sharedCodec ∧
            s'.shared.validConditions.lookup entry.1 = none) ∧
        ∀ entry ∈ s'.shared.triggerRuns.entries,
          entry.2.triggerId ≠ bothTrigger.triggerId)) = true)
    (by decide +kernel) (by decide +kernel)
  obtain ⟨s', hstep, hlost⟩ := (Option.any_eq_true _ _).mp hlost
  obtain ⟨⟨entry, hentry, hcond, hgone⟩, hnone⟩ := of_decide_eq_true hlost
  have hwatches : Watches (mailStore []) bothTrigger entry.2.conditionId := by
    rw [hcond]
    exact ⟨by decide +kernel, by decide⟩
  obtain ⟨runId, run, hrun, howner, -⟩ := h s _ s' hreach hstep entry.1 entry.2
    (AList.mem_lookup_iff.mpr hentry) hgone bothTrigger hwatches
  exact hnone ⟨runId, run⟩ (AList.mem_lookup_iff.mp hrun) howner

end Rustvello.Mem
