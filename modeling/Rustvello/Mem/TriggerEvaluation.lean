import Rustvello.Concurrency.History
import Rustvello.Mem.ConditionLookup

/-!
# What reports and evaluations do to the store

A report records the satisfied conditions that it finds.  An evaluation takes a snapshot of
the recorded conditions, looks up the triggers they affect, and in one call claims the runs
it planned and consumes the conditions they used.

* `withTriggers` — a store with conditions and triggers, and what its lookups answer;
* `Affected`, `Planned` — the triggers of a snapshot, and the claim made from it;
* `deskDiscipline` — the book of an operation: what it recorded, its snapshot, and what it
  claimed first;
* `program_obeys_desk` — every operation keeps this book, and an evaluation returns exactly
  the runs it was the first to claim.
-/

namespace Rustvello.Mem

open Concurrency Proto Rustvello.Core

/-! ## A store with triggers -/

namespace MemTriggerStore

/-- A fresh store after registrations of conditions and of triggers. -/
def withTriggers (codec : Codec) (conditions : List TriggerCondition)
    (triggers : List TriggerDefinitionDTO) : MemTriggerStore :=
  triggers.foldl registerTrigger (registered codec conditions)

/-- Every trigger is kept under its own id and indexed under each of its conditions. -/
structure TriggersIndexed (s : MemTriggerStore) : Prop where
  keyed : ∀ id trigger, s.triggers.lookup id = some trigger → trigger.triggerId = id
  indexed : ∀ id trigger, s.triggers.lookup id = some trigger → ∀ condId ∈ trigger.conditionIds,
    id ∈ (s.conditionTriggers.lookup condId).getD []

variable {s : MemTriggerStore}

theorem TriggersIndexed.registerTrigger (h : s.TriggersIndexed)
    (trigger : TriggerDefinitionDTO) : (s.registerTrigger trigger).TriggersIndexed := by
  have hindex : ∀ condId id, id ∈ ((s.registerTrigger trigger).conditionTriggers.lookup condId).getD []
      ↔ id ∈ (s.conditionTriggers.lookup condId).getD [] ∨
        (∃ c ∈ trigger.conditionIds, c = condId) ∧ id = trigger.triggerId := by
    intro condId id
    exact mem_foldl_indexAdd _ _ _ _ _ _
  constructor
  · intro id found hfound
    by_cases hid : id = trigger.triggerId
    · subst hid
      rw [MemTriggerStore.registerTrigger, AList.lookup_insert] at hfound
      obtain rfl := Option.some.inj hfound
      rfl
    · rw [MemTriggerStore.registerTrigger, AList.lookup_insert_ne hid] at hfound
      exact h.keyed id found hfound
  · intro id found hfound condId hcond
    rw [hindex]
    by_cases hid : id = trigger.triggerId
    · subst hid
      rw [MemTriggerStore.registerTrigger, AList.lookup_insert] at hfound
      obtain rfl := Option.some.inj hfound
      exact .inr ⟨⟨condId, hcond, rfl⟩, rfl⟩
    · rw [MemTriggerStore.registerTrigger, AList.lookup_insert_ne hid] at hfound
      exact .inl (h.indexed id found hfound condId hcond)

variable (codec : Codec) (conditions : List TriggerCondition) (triggers : List TriggerDefinitionDTO)

theorem withTriggers_append (trigger : TriggerDefinitionDTO) :
    withTriggers codec conditions (triggers ++ [trigger]) =
      (withTriggers codec conditions triggers).registerTrigger trigger := by
  simp [withTriggers]

/-- Triggers are registered beside the conditions. -/
theorem withTriggers_eq :
    ∃ byId byCondition, withTriggers codec conditions triggers =
      { registered codec conditions with triggers := byId, conditionTriggers := byCondition } := by
  induction triggers using List.reverseRecOn with
  | nil => exact ⟨_, _, rfl⟩
  | append_singleton triggers trigger ih =>
      obtain ⟨byId, byCondition, heq⟩ := ih
      rw [withTriggers_append, heq]
      exact ⟨_, _, rfl⟩

/-- Registration records and claims nothing. -/
theorem withTriggers_idle :
    (withTriggers codec conditions triggers).validConditions = ∅ ∧
      (withTriggers codec conditions triggers).triggerRunClaims = ∅ ∧
      (withTriggers codec conditions triggers).triggerRuns = ∅ := by
  obtain ⟨byId, byCondition, heq⟩ := withTriggers_eq codec conditions triggers
  rw [heq]
  obtain ⟨hvalid, _, hclaims, hruns⟩ := registered_idle codec conditions
  exact ⟨hvalid, hclaims, hruns⟩

theorem withTriggers_events :
    (withTriggers codec conditions triggers).events = ∅ := by
  have hregistered : (registered codec conditions).events = ∅ := by
    induction conditions using List.reverseRecOn with
    | nil => rfl
    | append_singleton conditions cond ih =>
        rw [registered_append]
        exact ih
  obtain ⟨byId, byCondition, heq⟩ := withTriggers_eq codec conditions triggers
  rw [heq]
  exact hregistered

theorem registered_triggers :
    (registered codec conditions).triggers = ∅ := by
  induction conditions using List.reverseRecOn with
  | nil => rfl
  | append_singleton conditions cond ih =>
      rw [registered_append]
      exact ih

theorem withTriggers_indexed :
    (withTriggers codec conditions triggers).TriggersIndexed := by
  induction triggers using List.reverseRecOn with
  | nil =>
      constructor <;> intro id trigger hlookup <;>
        simp [withTriggers, registered_triggers] at hlookup
  | append_singleton triggers trigger ih =>
      rw [withTriggers_append]
      exact ih.registerTrigger trigger

/-- A lookup finds the triggers that are indexed, as they were registered last. -/
theorem mem_getTriggersForCondition (h : s.TriggersIndexed) {condId : ConditionId}
    {trigger : TriggerDefinitionDTO} :
    trigger ∈ s.getTriggersForCondition condId ↔
      trigger.triggerId ∈ (s.conditionTriggers.lookup condId).getD [] ∧
        s.triggers.lookup trigger.triggerId = some trigger := by
  rw [getTriggersForCondition, List.mem_filterMap]
  constructor
  · rintro ⟨id, hid, hlookup⟩
    obtain rfl := h.keyed id trigger hlookup
    exact ⟨hid, hlookup⟩
  · rintro ⟨hid, hlookup⟩
    exact ⟨_, hid, hlookup⟩

/-- A registered trigger is found by each of its conditions. -/
theorem TriggersIndexed.found (h : s.TriggersIndexed) {trigger : TriggerDefinitionDTO}
    (hlookup : s.triggers.lookup trigger.triggerId = some trigger) {condId : ConditionId}
    (hcond : condId ∈ trigger.conditionIds) :
    trigger ∈ s.getTriggersForCondition condId :=
  (mem_getTriggersForCondition h).mpr ⟨h.indexed _ _ hlookup condId hcond, hlookup⟩

/-- The store still has the registrations of `init`. -/
structure SameRegistry (init s : MemTriggerStore) : Prop where
  conditions : s.conditions = init.conditions
  sourceTaskConditions : s.sourceTaskConditions = init.sourceTaskConditions
  eventConditions : s.eventConditions = init.eventConditions
  triggers : s.triggers = init.triggers
  conditionTriggers : s.conditionTriggers = init.conditionTriggers

theorem SameRegistry.refl (s : MemTriggerStore) : SameRegistry s s :=
  ⟨rfl, rfl, rfl, rfl, rfl⟩

/-- No call of the trigger manager registers anything. -/
theorem SameRegistry.exec {init s : MemTriggerStore} (h : SameRegistry init s) (env : TriggerEnv)
    (c : TriggerCall) : SameRegistry init (MemTriggerStore.exec env c s).2 := by
  cases c
  case storeCronExecution id time last =>
    simp only [MemTriggerStore.exec, storeCronExecution]
    split
    · exact ⟨h.conditions, h.sourceTaskConditions, h.eventConditions, h.triggers,
        h.conditionTriggers⟩
    · exact h
  case claimTriggerRunsWithRecords records consumed =>
    obtain ⟨claims, runs, heq⟩ := claimRuns_eq env.clock.instant records s
    have hstore : (MemTriggerStore.exec env (.claimTriggerRunsWithRecords records consumed) s).2 =
        ({ s with triggerRunClaims := claims, triggerRuns := runs } : MemTriggerStore).consume
          consumed := by
      show ((claimRuns _ s records).2).consume consumed = _
      rw [heq]
    rw [hstore]
    exact ⟨h.conditions, h.sourceTaskConditions, h.eventConditions, h.triggers,
      h.conditionTriggers⟩
  all_goals
    exact ⟨h.conditions, h.sourceTaskConditions, h.eventConditions, h.triggers,
      h.conditionTriggers⟩

section Lookups

variable {init s : MemTriggerStore} (h : SameRegistry init s)
include h

theorem SameRegistry.getConditionsForTask (taskId : TaskId) :
    s.getConditionsForTask taskId = init.getConditionsForTask taskId := by
  simp only [MemTriggerStore.getConditionsForTask, resolve, h.conditions, h.sourceTaskConditions]

theorem SameRegistry.getEventConditions (eventCode : String) :
    s.getEventConditions eventCode = init.getEventConditions eventCode := by
  simp only [MemTriggerStore.getEventConditions, resolve, h.conditions, h.eventConditions]

theorem SameRegistry.getTriggersForCondition (condId : ConditionId) :
    s.getTriggersForCondition condId = init.getTriggersForCondition condId := by
  simp only [MemTriggerStore.getTriggersForCondition, h.triggers, h.conditionTriggers]

end Lookups

end MemTriggerStore

/-! ## The affected triggers -/

variable {found triggers : List TriggerDefinitionDTO} {trigger : TriggerDefinitionDTO}

theorem mem_addTriggers (h : trigger ∈ addTriggers found triggers) :
    trigger ∈ found ∨ trigger ∈ triggers := by
  induction triggers generalizing found with
  | nil => exact .inl h
  | cons t rest ih =>
      simp only [addTriggers] at h
      split at h
      · exact (ih h).imp_right (List.mem_cons_of_mem _)
      · rcases ih h with hfound | hrest
        · rcases List.mem_append.mp hfound with hold | hnew
          · exact .inl hold
          · exact .inr (List.mem_singleton.mp hnew ▸ List.mem_cons_self)
        · exact .inr (List.mem_cons_of_mem _ hrest)

theorem subset_addTriggers (found triggers : List TriggerDefinitionDTO) :
    found ⊆ addTriggers found triggers := by
  induction triggers generalizing found with
  | nil => exact fun _ h => h
  | cons t rest ih =>
      simp only [addTriggers]
      split
      · exact ih found
      · exact fun _ h => ih _ (List.mem_append_left _ h)

/-- Every added trigger is there, under its id. -/
theorem exists_mem_addTriggers (h : trigger ∈ triggers) :
    ∃ t ∈ addTriggers found triggers, t.triggerId = trigger.triggerId := by
  induction triggers generalizing found with
  | nil => cases h
  | cons t rest ih =>
      simp only [addTriggers]
      rcases List.mem_cons.mp h with rfl | hrest
      · split
        · rename_i hold
          obtain ⟨t', ht', hid⟩ := List.mem_map.mp hold
          exact ⟨t', subset_addTriggers _ _ ht', hid⟩
        · exact ⟨trigger, subset_addTriggers _ _ (by simp), rfl⟩
      · split
        · exact ih hrest
        · exact ih hrest

theorem nodup_addTriggers (h : (found.map TriggerDefinitionDTO.triggerId).Nodup) :
    ((addTriggers found triggers).map TriggerDefinitionDTO.triggerId).Nodup := by
  induction triggers generalizing found with
  | nil => exact h
  | cons t rest ih =>
      simp only [addTriggers]
      split
      · exact ih h
      · rename_i hnew
        apply ih
        rw [List.map_append, List.map_singleton]
        exact List.nodup_append.mpr ⟨h, List.nodup_singleton _, fun a ha b hb hab =>
          hnew (List.mem_singleton.mp hb ▸ hab ▸ ha)⟩

/-- Sorting the triggers by an order of their ids keeps them. -/
theorem mem_triggersInOrder {triggers : List TriggerDefinitionDTO} {order : List (List Char)}
    (hnodup : (triggers.map TriggerDefinitionDTO.triggerId).Nodup)
    (horder : ∀ key, key ∈ order ↔ key ∈ triggers.map fun trigger => trigger.triggerId.raw) :
    trigger ∈ triggersInOrder triggers order ↔ trigger ∈ triggers := by
  rw [triggersInOrder, List.mem_filterMap]
  constructor
  · rintro ⟨key, _, hfind⟩
    exact List.mem_of_find?_eq_some hfind
  · intro hmem
    refine ⟨trigger.triggerId.raw, (horder _).mpr (List.mem_map_of_mem hmem), ?_⟩
    cases hfind : triggers.find? fun t => t.triggerId.raw = trigger.triggerId.raw with
    | none => exact absurd (List.find?_eq_none.mp hfind trigger hmem) (by simp)
    | some t =>
        have hraw : t.triggerId = trigger.triggerId := by
          have hsome := List.find?_some hfind
          simp only [decide_eq_true_eq] at hsome
          cases ht : t.triggerId
          cases htrigger : trigger.triggerId
          rw [ht, htrigger] at hsome
          exact congrArg TriggerDefinitionId.mk hsome
        exact congrArg some (List.inj_on_of_nodup_map hnodup (List.mem_of_find?_eq_some hfind) hmem
          hraw)

theorem nodup_triggersInOrder {triggers : List TriggerDefinitionDTO} {order : List (List Char)}
    (horder : order.Nodup) :
    ((triggersInOrder triggers order).map TriggerDefinitionDTO.triggerId).Nodup := by
  have hraw : ∀ order : List (List Char), order.Nodup →
      ((triggersInOrder triggers order).map fun t => t.triggerId.raw).Nodup ∧
        ∀ t ∈ triggersInOrder triggers order, t.triggerId.raw ∈ order := by
    intro order hnodup
    induction order with
    | nil => exact ⟨List.nodup_nil, by simp [triggersInOrder]⟩
    | cons key rest ih =>
        obtain ⟨hkey, hrest⟩ := List.nodup_cons.mp hnodup
        obtain ⟨hnodup', hmem⟩ := ih hrest
        cases hfind : triggers.find? fun trigger => trigger.triggerId.raw = key with
        | none =>
            have heq : triggersInOrder triggers (key :: rest) = triggersInOrder triggers rest := by
              simp [triggersInOrder, hfind]
            rw [heq]
            exact ⟨hnodup', fun t ht => List.mem_cons_of_mem _ (hmem t ht)⟩
        | some found =>
            have heq : triggersInOrder triggers (key :: rest) =
                found :: triggersInOrder triggers rest := by
              simp [triggersInOrder, hfind]
            have hfound : found.triggerId.raw = key := by
              simpa using List.find?_some hfind
            rw [heq]
            refine ⟨List.nodup_cons.mpr ⟨?_, hnodup'⟩, ?_⟩
            · intro hdup
              obtain ⟨t, ht, hraw⟩ := List.mem_map.mp hdup
              have hin := hmem t ht
              rw [hraw.trans hfound] at hin
              exact hkey hin
            · exact List.forall_mem_cons.mpr ⟨by simp [hfound], fun t ht =>
                List.mem_cons_of_mem _ (hmem t ht)⟩
  have hmap := (hraw order horder).1
  rw [show (fun t : TriggerDefinitionDTO => t.triggerId.raw) =
    TriggerDefinitionId.raw ∘ TriggerDefinitionDTO.triggerId from rfl, ← List.map_map] at hmap
  exact hmap.of_map _

/-! ## Desks -/

section Desks

variable (codec : Codec) (init : MemTriggerStore)

/-- The valid condition has the id of its condition and context. -/
def Formed (vc : ValidCondition) : Prop :=
  vc = ValidCondition.new codec vc.conditionId vc.context

/-- The trigger is looked up by a condition of the snapshot. -/
def Affected (snapshot : List ValidCondition) (trigger : TriggerDefinitionDTO) : Prop :=
  ∃ vc ∈ snapshot, trigger ∈ init.getTriggersForCondition vc.conditionId

/-- The runs and the consumption that an evaluation makes of its snapshot. -/
def Planned (snapshot : List ValidCondition) (records : List TriggerRun)
    (consumed : List (List Char)) : Prop :=
  ∃ (now : Timestamp) (ordered : List TriggerDefinitionDTO),
    (ordered.map TriggerDefinitionDTO.triggerId).Nodup ∧
    (∀ trigger, trigger ∈ ordered ↔ Affected init snapshot trigger) ∧
    records = (ordered.flatMap (candidatesOf codec now snapshot)).map Prod.fst ∧
    consumed = sortTexts (ordered.flatMap (consumedBy snapshot)).dedup

/-- No affected trigger fires. -/
def NothingFires (snapshot : List ValidCondition) : Prop :=
  ∃ now, ∀ trigger, Affected init snapshot trigger → candidatesOf codec now snapshot trigger = []

/-- The runs of a claim that were claimed for the first time. -/
def firstClaims (records : List TriggerRun) (claimed : List Bool) : List TriggerRunId :=
  (records.zip claimed).filterMap fun entry =>
    if entry.2 then some entry.1.triggerRunId else none

/-- What one operation has done so far. -/
structure Desk where
  task : TriggerTask
  /-- The context that is reported. -/
  context : Option ConditionContext := none
  recorded : List ValidCondition := []
  snapshot : Option (List ValidCondition) := none
  claimed : Bool := false
  /-- The runs it was the first to claim. -/
  first : List TriggerRunId := []

/-- The context of a report; an event has one once its id is drawn. -/
def TriggerTask.context? : TriggerTask → Option ConditionContext
  | statusChange ctx => some (.status ctx)
  | result ctx => some (.result ctx)
  | failure ctx => some (.exception ctx)
  | event _ _ | cron | evaluate => none

/-- The context of an event report with a drawn id. -/
def TriggerTask.eventContext? (eventId : String) : TriggerTask → Option ConditionContext
  | event eventCode payload => some (.event ⟨eventId, eventCode, payload⟩)
  | task => task.context?

def Desk.next : (c : TriggerCall) → c.Ans → Desk → Desk
  | .newEventId, eventId, g => { g with context := g.task.eventContext? eventId }
  | .recordValidCondition vc, _, g => { g with recorded := vc :: g.recorded }
  | .getValidConditions, valid, g => { g with snapshot := some valid }
  | .claimTriggerRunsWithRecords records _, claimed, g =>
      { g with claimed := true, first := firstClaims records claimed }
  | _, _, g => g

/-- Reports record formed conditions; an evaluation claims once, as planned from its
snapshot, and stops there. -/
def deskDiscipline : Discipline triggerStore TriggerTask Desk where
  start task := { task := task, context := task.context? }
  next := Desk.next
  pre c g := g.claimed = false ∧ match c with
    | .recordValidCondition vc => g.task ≠ .evaluate ∧ Formed codec vc
    | .claimTriggerRunsWithRecords records consumed =>
        g.task = .evaluate ∧ ∃ snapshot, g.snapshot = some snapshot ∧
          Planned codec init snapshot records consumed
    | _ => True
  resp
    | .getConditionsForTask taskId, _, found => found = init.getConditionsForTask taskId
    | .getEventConditions eventCode, _, found => found = init.getEventConditions eventCode
    | .getTriggersForCondition condId, _, found => found = init.getTriggersForCondition condId
    | .keyOrder keys, _, order => (keys.Nodup → order.Nodup) ∧ ∀ key, key ∈ order ↔ key ∈ keys
    | .claimTriggerRunsWithRecords records _, _, claimed => claimed.length = records.length
    | _, _, _ => True

/-- What a finished operation has done. -/
structure Desk.Settled (g : Desk) : Prop where
  reported : ∀ ctx ∈ g.context, ∀ entry ∈ lookupFor init ctx,
    entry.2.isSatisfiedBy codec ctx = true → ValidCondition.new codec entry.1 ctx ∈ g.recorded
  evaluated : g.task = .evaluate → ∃ snapshot, g.snapshot = some snapshot ∧
    (g.claimed = true ∨ NothingFires codec init snapshot)

variable {codec init}

theorem formed_new (condId : ConditionId) (ctx : ConditionContext) :
    Formed codec (ValidCondition.new codec condId ctx) := rfl

/-- Recording the satisfied conditions of a list. -/
theorem recordSatisfied_obeys (ctx : ConditionContext)
    (found : List (ConditionId × TriggerCondition)) {g : Desk} (htask : g.task ≠ .evaluate)
    (hclaimed : g.claimed = false) :
    (deskDiscipline codec init).Obeys (recordSatisfied codec ctx found)
      (fun _ g' => g'.task = g.task ∧ g'.context = g.context ∧ g'.claimed = false ∧
        g.recorded ⊆ g'.recorded ∧ ∀ entry ∈ found, entry.2.isSatisfiedBy codec ctx = true →
          ValidCondition.new codec entry.1 ctx ∈ g'.recorded) g := by
  induction found generalizing g with
  | nil => exact ⟨rfl, rfl, hclaimed, fun _ h => h, by simp⟩
  | cons entry rest ih =>
      obtain ⟨condId, cond⟩ := entry
      simp only [recordSatisfied]
      split
      · refine obeys_store_bind.mpr ⟨⟨hclaimed, htask, formed_new condId ctx⟩, fun _ _ => ?_⟩
        let vc := ValidCondition.new codec condId ctx
        have hrest := @ih { g with recorded := vc :: g.recorded } htask hclaimed
        refine Discipline.Obeys.bind hrest ?_
        rintro others g' ⟨htask', hctx, hclaimed', hsub, hall⟩
        refine ⟨htask', hctx, hclaimed', fun x hx => hsub (List.mem_cons_of_mem _ hx), ?_⟩
        exact List.forall_mem_cons.mpr ⟨fun _ => hsub List.mem_cons_self, hall⟩
      · rename_i hunsat
        apply (ih htask hclaimed).mono
        rintro _ g' ⟨htask', hctx, hclaimed', hsub, hall⟩
        exact ⟨htask', hctx, hclaimed', hsub, List.forall_mem_cons.mpr
          ⟨fun hsat => absurd hsat hunsat, hall⟩⟩

/-- A report that looks conditions up by task. -/
theorem evaluateTaskConditions_obeys {taskId : TaskId} {ctx : ConditionContext} {g : Desk}
    (htask : g.task ≠ .evaluate) (hclaimed : g.claimed = false) (hctx : g.context = some ctx)
    (hlookup : lookupFor init ctx = init.getConditionsForTask taskId) :
    (deskDiscipline codec init).Obeys (evaluateTaskConditions codec taskId ctx)
      (fun _ => Desk.Settled codec init) g := by
  refine obeys_store_bind.mpr ⟨⟨hclaimed, trivial⟩, fun found hfound => ?_⟩
  obtain rfl : found = init.getConditionsForTask taskId := hfound
  apply (recordSatisfied_obeys ctx _ htask hclaimed).mono
  rintro _ g' ⟨htask', hctx', _, _, hall⟩
  constructor
  · intro ctx' hctx''
    rw [hctx', hctx] at hctx''
    obtain rfl := Option.some.inj hctx''
    rw [hlookup]
    exact hall
  · intro heval
    exact absurd (htask'.symm.trans heval) htask

/-- An event is reported under the id that was drawn for it, and this id is returned. -/
theorem emitEvent_obeys (eventCode : String) (payload : JsonValue) :
    (deskDiscipline codec init).Obeys (emitEvent codec eventCode payload)
      (fun eventId g => g.context = some (.event ⟨eventId, eventCode, payload⟩) ∧
        g.Settled codec init)
      ((deskDiscipline codec init).start (.event eventCode payload)) := by
  refine obeys_store_bind.mpr ⟨⟨rfl, trivial⟩, fun eventId _ => ?_⟩
  refine obeys_store_bind.mpr ⟨⟨rfl, trivial⟩, fun now _ => ?_⟩
  refine obeys_store_bind.mpr ⟨⟨rfl, trivial⟩, fun _ _ => ?_⟩
  refine obeys_store_bind.mpr ⟨⟨rfl, trivial⟩, fun found hfound => ?_⟩
  obtain rfl : found = init.getEventConditions eventCode := hfound
  have hrecorded := @recordSatisfied_obeys codec init (.event ⟨eventId, eventCode, payload⟩)
    (init.getEventConditions eventCode)
    { task := .event eventCode payload, context := some (.event ⟨eventId, eventCode, payload⟩) }
    (by simp) rfl
  refine Discipline.Obeys.bind hrecorded ?_
  rintro valid g ⟨htask, hctx, hclaimed, _, hall⟩
  have hsettled : g.Settled codec init := by
    constructor
    · intro ctx hmem
      rw [hctx] at hmem
      obtain rfl := Option.some.inj hmem
      exact hall
    · intro heval
      rw [htask] at heval
      cases heval
  dsimp only
  split
  · exact obeys_store_bind.mpr ⟨⟨hclaimed, trivial⟩, fun _ _ => ⟨hctx, hsettled⟩⟩
  · exact ⟨hctx, hsettled⟩

/-- A cron evaluation records formed conditions. -/
theorem evaluateCronConditions_obeys (croner : Croner) :
    (deskDiscipline codec init).Obeys (evaluateCronConditions croner codec)
      (fun _ => Desk.Settled codec init) ((deskDiscipline codec init).start .cron) := by
  let K : Desk → Prop := fun g => g.task = .cron ∧ g.context = none ∧ g.claimed = false
  have hquiet : ∀ {c : TriggerCall}, (∀ g, g.claimed = false →
      (deskDiscipline codec init).pre c g) → (∀ r g, (deskDiscipline codec init).next c r g = g) →
      (deskDiscipline codec init).Keeps K c := by
    intro c hpre hnext g hg
    refine ⟨hpre g hg.2.2, fun r _ => ?_⟩
    rw [hnext]
    exact hg
  have huses : (evaluateCronConditions croner codec).Uses (deskDiscipline codec init).Answers
      ((deskDiscipline codec init).Keeps K) := by
    apply uses_evaluateCronConditions
    · exact hquiet (fun _ h => ⟨h, trivial⟩) fun _ _ => rfl
    · exact hquiet (fun _ h => ⟨h, trivial⟩) fun _ _ => rfl
    · exact fun _ => hquiet (fun _ h => ⟨h, trivial⟩) fun _ _ => rfl
    · exact fun _ _ _ => hquiet (fun _ h => ⟨h, trivial⟩) fun _ _ => rfl
    · rintro condId ctx g ⟨htask, hctx, hclaimed⟩
      refine ⟨⟨hclaimed, by simp [htask], formed_new condId (.cron ctx)⟩, fun _ _ => ?_⟩
      exact ⟨htask, hctx, hclaimed⟩
  apply (Discipline.Obeys.of_keeps huses ⟨rfl, rfl, rfl⟩).mono
  rintro _ g ⟨htask, hctx, _⟩
  constructor
  · intro ctx hmem
    simp [hctx] at hmem
  · intro heval
    rw [htask] at heval
    cases heval

/-! ### Evaluations -/

/-- The triggers of all keys, each once, as they are registered. -/
theorem affectedTriggers_obeys (hinit : init.TriggersIndexed) (keys : List (List Char))
    {found : List TriggerDefinitionDTO} {g : Desk} (hclaimed : g.claimed = false)
    (hnodup : (found.map TriggerDefinitionDTO.triggerId).Nodup)
    (hfound : ∀ t ∈ found, init.triggers.lookup t.triggerId = some t) :
    (deskDiscipline codec init).Obeys (affectedTriggers found keys)
      (fun triggers g' => g' = g ∧ (triggers.map TriggerDefinitionDTO.triggerId).Nodup ∧
        (∀ t ∈ triggers, init.triggers.lookup t.triggerId = some t) ∧
        ∀ t, t ∈ triggers ↔
          t ∈ found ∨ ∃ key ∈ keys, t ∈ init.getTriggersForCondition ⟨key⟩) g := by
  induction keys generalizing found with
  | nil => exact ⟨rfl, hnodup, hfound, by simp⟩
  | cons key rest ih =>
      refine obeys_store_bind.mpr ⟨⟨hclaimed, trivial⟩, fun triggers htriggers => ?_⟩
      obtain rfl : triggers = init.getTriggersForCondition ⟨key⟩ := htriggers
      have hregistered : ∀ t ∈ addTriggers found (init.getTriggersForCondition ⟨key⟩),
          init.triggers.lookup t.triggerId = some t := by
        intro t ht
        rcases mem_addTriggers ht with hold | hnew
        · exact hfound t hold
        · exact ((MemTriggerStore.mem_getTriggersForCondition hinit).mp hnew).2
      have hadded : ∀ t, t ∈ addTriggers found (init.getTriggersForCondition ⟨key⟩) ↔
          t ∈ found ∨ t ∈ init.getTriggersForCondition ⟨key⟩ := by
        intro t
        refine ⟨mem_addTriggers, ?_⟩
        rintro (hold | hnew)
        · exact subset_addTriggers _ _ hold
        · -- the trigger kept under this id is the registered one
          obtain ⟨t', ht', hid⟩ := @exists_mem_addTriggers found _ _ hnew
          have hlookup := ((MemTriggerStore.mem_getTriggersForCondition hinit).mp hnew).2
          have hlookup' := hregistered t' ht'
          rw [hid, hlookup] at hlookup'
          obtain rfl := Option.some.inj hlookup'
          exact ht'
      apply (ih (nodup_addTriggers hnodup) hregistered).mono
      rintro triggers g' ⟨hg, hnodup', hreg, hmem⟩
      refine ⟨hg, hnodup', hreg, fun t => ?_⟩
      rw [hmem, hadded]
      simp [or_assoc]

/-- The run ids of what an evaluation returns are those it claimed first. -/
theorem claimedExecutions_runId {now : Timestamp} {snapshot : List ValidCondition}
    (ordered : List TriggerDefinitionDTO) (claimed : List Bool) :
    (claimedExecutions (ordered.flatMap (candidatesOf codec now snapshot)) claimed).map
        TriggerExecution.runId =
      firstClaims ((ordered.flatMap (candidatesOf codec now snapshot)).map Prod.fst) claimed := by
  have hsame : ∀ entry ∈ ordered.flatMap (candidatesOf codec now snapshot),
      entry.2.runId = entry.1.triggerRunId := by
    intro entry hentry
    obtain ⟨trigger, _, hcandidate⟩ := List.mem_flatMap.mp hentry
    unfold candidatesOf at hcandidate
    split at hcandidate
    · split at hcandidate
      · obtain rfl := List.mem_singleton.mp hcandidate
        rfl
      · cases hcandidate
    · obtain ⟨condId, _, hvc⟩ := List.mem_flatMap.mp hcandidate
      obtain ⟨vc, _, rfl⟩ := List.mem_map.mp hvc
      rfl
  generalize ordered.flatMap (candidatesOf codec now snapshot) = candidates at hsame
  induction candidates generalizing claimed with
  | nil => rfl
  | cons entry rest ih =>
      rw [List.forall_mem_cons] at hsame
      cases claimed with
      | nil => rfl
      | cons flag flags =>
          have hrest := ih flags hsame.2
          unfold claimedExecutions firstClaims at hrest ⊢
          cases flag <;> simp [hrest, hsame.1]

/-- **An evaluation.**  It claims at most once, as planned from its snapshot, and returns
the runs that this claim was the first for. -/
theorem evaluateTriggerRuns_obeys (hinit : init.TriggersIndexed) :
    (deskDiscipline codec init).Obeys (evaluateTriggerRuns codec)
      (fun executions g => executions.map TriggerExecution.runId = g.first ∧
        g.Settled codec init) ((deskDiscipline codec init).start .evaluate) := by
  have hsettled : ∀ g : Desk, g.context = none → (g.task = .evaluate →
      ∃ snapshot, g.snapshot = some snapshot ∧
        (g.claimed = true ∨ NothingFires codec init snapshot)) → g.Settled codec init := by
    intro g hctx heval
    refine ⟨?_, heval⟩
    intro ctx hmem
    simp [hctx] at hmem
  refine obeys_store_bind.mpr ⟨⟨rfl, trivial⟩, fun snapshot _ => ?_⟩
  split
  · -- an empty snapshot affects no trigger
    rename_i hempty
    have hnil : snapshot = [] := by simpa using hempty
    refine ⟨rfl, hsettled _ rfl fun _ => ⟨snapshot, rfl, .inr ⟨0, ?_⟩⟩⟩
    rintro trigger ⟨vc, hvc, _⟩
    simp [hnil] at hvc
  · refine obeys_store_bind.mpr ⟨⟨rfl, trivial⟩, fun keys hkeys => ?_⟩
    have hmemKeys : ∀ key, key ∈ keys ↔ ∃ vc ∈ snapshot, vc.conditionId.raw = key := by
      intro key
      rw [hkeys.2]
      simp
    refine Discipline.Obeys.bind (affectedTriggers_obeys hinit keys rfl List.nodup_nil (by simp)) ?_
    rintro triggers g ⟨rfl, hnodup, _, hmem⟩
    refine obeys_store_bind.mpr ⟨⟨rfl, trivial⟩, fun order horder => ?_⟩
    refine obeys_store_bind.mpr ⟨⟨rfl, trivial⟩, fun now _ => ?_⟩
    have horderNodup : order.Nodup := by
      apply horder.1
      have hraw : Function.Injective TriggerDefinitionId.raw := by
        rintro ⟨a⟩ ⟨b⟩ h
        exact congrArg TriggerDefinitionId.mk h
      have hmap := hnodup.map hraw
      rw [List.map_map] at hmap
      exact hmap
    have haffected : ∀ trigger, trigger ∈ triggersInOrder triggers order ↔
        Affected init snapshot trigger := by
      intro trigger
      rw [mem_triggersInOrder hnodup horder.2, hmem]
      constructor
      · rintro (hnone | ⟨key, hkey, hfound⟩)
        · cases hnone
        · obtain ⟨vc, hvc, rfl⟩ := (hmemKeys key).mp hkey
          exact ⟨vc, hvc, hfound⟩
      · rintro ⟨vc, hvc, hfound⟩
        exact .inr ⟨_, (hmemKeys _).mpr ⟨vc, hvc, rfl⟩, hfound⟩
    dsimp only
    split
    · rename_i hnone
      refine ⟨rfl, hsettled _ rfl fun _ => ⟨snapshot, rfl, .inr ⟨now.instant, ?_⟩⟩⟩
      intro trigger htrigger
      rw [List.isEmpty_iff, List.flatMap_eq_nil_iff] at hnone
      exact hnone trigger ((haffected trigger).mpr htrigger)
    · refine obeys_store_bind.mpr ⟨⟨rfl, rfl, snapshot, rfl, now.instant, _,
        nodup_triggersInOrder horderNodup, haffected, rfl, rfl⟩, fun claimed _ => ?_⟩
      exact ⟨claimedExecutions_runId _ _, hsettled _ rfl fun _ => ⟨snapshot, rfl, .inl rfl⟩⟩

/-- Every operation keeps its desk. -/
theorem program_obeys_desk (hinit : init.TriggersIndexed) (croner : Croner) (task : TriggerTask) :
    (deskDiscipline codec init).Obeys (task.program croner codec)
      (fun _ => Desk.Settled codec init) ((deskDiscipline codec init).start task) := by
  cases task with
  | statusChange ctx | result ctx | failure ctx =>
      exact Discipline.Obeys.toUnit
        (evaluateTaskConditions_obeys (by simp [deskDiscipline]) rfl rfl rfl)
  | event eventCode payload =>
      apply Discipline.Obeys.toUnit
      apply (emitEvent_obeys eventCode payload).mono
      rintro eventId g ⟨_, hsettled⟩
      exact hsettled
  | cron => exact Discipline.Obeys.toUnit (evaluateCronConditions_obeys croner)
  | evaluate =>
      apply Discipline.Obeys.toUnit
      apply (evaluateTriggerRuns_obeys hinit).mono
      rintro executions g ⟨_, hsettled⟩
      exact hsettled

end Desks

/-! ## Claims -/

namespace MemTriggerStore

/-- The run has been claimed. -/
def Claimed (s : MemTriggerStore) (runId : TriggerRunId) : Prop :=
  (s.triggerRunClaims.lookup runId).isSome = true

instance (s : MemTriggerStore) (runId : TriggerRunId) : Decidable (s.Claimed runId) :=
  inferInstanceAs (Decidable (_ = true))

/-- Exactly the claimed runs have a record, under their own id. -/
structure Recorded (s : MemTriggerStore) : Prop where
  claimed : ∀ runId, (s.triggerRuns.lookup runId).isSome = true ↔ s.Claimed runId
  keyed : ∀ runId run, s.triggerRuns.lookup runId = some run → run.triggerRunId = runId

variable {s : MemTriggerStore}

/-- **One claim.**  It counts if it is the first one; then, and only then, its record is
stored. -/
theorem claimRun_cases (now : Timestamp) (h : s.Recorded) (record : TriggerRun) :
    (s.Claimed record.triggerRunId ∧ claimRun now s record = (false, s)) ∨
    (¬ s.Claimed record.triggerRunId ∧ claimRun now s record = (true, { s with
      triggerRunClaims := s.triggerRunClaims.insert record.triggerRunId now
      triggerRuns := s.triggerRuns.insert record.triggerRunId record })) := by
  by_cases hclaimed : s.Claimed record.triggerRunId
  · have hnone : (s.triggerRunClaims.lookup record.triggerRunId).isNone = false := by
      rw [← Option.not_isSome, show (s.triggerRunClaims.lookup record.triggerRunId).isSome = true
        from hclaimed]
      rfl
    have hrun : (s.triggerRuns.lookup record.triggerRunId).isNone = false := by
      rw [← Option.not_isSome, (h.claimed _).mpr hclaimed]
      rfl
    exact .inl ⟨hclaimed, by simp [claimRun, hnone, hrun]⟩
  · have hnone : (s.triggerRunClaims.lookup record.triggerRunId).isNone = true := by
      simpa [Claimed] using hclaimed
    exact .inr ⟨hclaimed, by simp [claimRun, hnone]⟩

theorem Recorded.claim (h : s.Recorded) (now : Timestamp) (record : TriggerRun) : Recorded { s with
      triggerRunClaims := s.triggerRunClaims.insert record.triggerRunId now
      triggerRuns := s.triggerRuns.insert record.triggerRunId record } := by
  constructor
  · intro runId
    by_cases hid : runId = record.triggerRunId
    · subst hid
      simp [Claimed]
    · simpa [Claimed, AList.lookup_insert_ne hid] using h.claimed runId
  · intro runId run hlookup
    by_cases hid : runId = record.triggerRunId
    · subst hid
      rw [AList.lookup_insert] at hlookup
      obtain rfl := Option.some.inj hlookup
      rfl
    · rw [AList.lookup_insert_ne hid] at hlookup
      exact h.keyed runId run hlookup

theorem claimed_insert (s : MemTriggerStore) (record : TriggerRun) (now : Timestamp)
    (runs : HashMap TriggerRunId TriggerRun) (runId : TriggerRunId) :
    Claimed { s with
        triggerRunClaims := s.triggerRunClaims.insert record.triggerRunId now
        triggerRuns := runs } runId ↔
      s.Claimed runId ∨ runId = record.triggerRunId := by
  by_cases hid : runId = record.triggerRunId
  · subst hid
    simp [Claimed]
  · simp [Claimed, AList.lookup_insert_ne hid, hid]

/-- **A batch of claims.**  Afterwards its runs are claimed; each run was claimed for the
first time at most once, and only new runs got a record of the batch. -/
structure ClaimsBatch (s : MemTriggerStore) (records : List TriggerRun) (flags : List Bool)
    (s' : MemTriggerStore) : Prop where
  length : flags.length = records.length
  recorded : s'.Recorded
  claimed : ∀ runId, s'.Claimed runId ↔
    s.Claimed runId ∨ ∃ record ∈ records, record.triggerRunId = runId
  counted : ∀ runId, (firstClaims records flags).count runId + (if s.Claimed runId then 1 else 0) =
    if s'.Claimed runId then 1 else 0
  runs : ∀ runId run, s'.triggerRuns.lookup runId = some run →
    s.triggerRuns.lookup runId = some run ∨ ¬ s.Claimed runId ∧ run ∈ records

theorem claimRuns_batch (now : Timestamp) (records : List TriggerRun) (h : s.Recorded) :
    ClaimsBatch s records (claimRuns now s records).1 (claimRuns now s records).2 := by
  induction records generalizing s with
  | nil => exact ⟨rfl, h, by simp [claimRuns], fun _ => Nat.zero_add _, fun _ _ => .inl⟩
  | cons record rest ih =>
      obtain ⟨hclaimed, heq⟩ | ⟨hclaimed, heq⟩ := claimRun_cases now h record
      · -- an earlier claim stands
        have hbatch := ih h
        simp only [claimRuns, heq]
        refine ⟨by simp [hbatch.length], hbatch.recorded, ?_, ?_, ?_⟩
        · intro runId
          rw [hbatch.claimed]
          constructor
          · rintro (hold | ⟨r, hr, hid⟩)
            · exact .inl hold
            · exact .inr ⟨r, List.mem_cons_of_mem _ hr, hid⟩
          · rintro (hold | ⟨r, hr, rfl⟩)
            · exact .inl hold
            · rcases List.mem_cons.mp hr with rfl | hr
              · exact .inl hclaimed
              · exact .inr ⟨r, hr, rfl⟩
        · exact hbatch.counted
        · intro runId run hrun
          exact (hbatch.runs runId run hrun).imp_right fun hnew =>
            ⟨hnew.1, List.mem_cons_of_mem _ hnew.2⟩
      · have hbatch := ih (h.claim now record)
        simp only [claimRuns, heq]
        refine ⟨by simp [hbatch.length], hbatch.recorded, ?_, ?_, ?_⟩
        · intro runId
          rw [hbatch.claimed, claimed_insert]
          constructor
          · rintro ((hold | rfl) | ⟨r, hr, hid⟩)
            · exact .inl hold
            · exact .inr ⟨record, List.mem_cons_self, rfl⟩
            · exact .inr ⟨r, List.mem_cons_of_mem _ hr, hid⟩
          · rintro (hold | ⟨r, hr, rfl⟩)
            · exact .inl (.inl hold)
            · rcases List.mem_cons.mp hr with rfl | hr
              · exact .inl (.inr rfl)
              · exact .inr ⟨r, hr, rfl⟩
        · intro runId
          have hcounted := hbatch.counted runId
          have hcons : ∀ flags, (firstClaims (record :: rest) (true :: flags)).count runId =
              (firstClaims rest flags).count runId +
                if record.triggerRunId = runId then 1 else 0 := by
            intro flags
            simp [firstClaims, List.count_cons]
          rw [hcons]
          simp only [claimed_insert] at hcounted
          by_cases hid : runId = record.triggerRunId
          · subst hid
            simp only [hclaimed, or_true, if_true, if_false] at hcounted ⊢
            omega
          · simp only [hid, or_false, Ne.symm hid, if_false] at hcounted ⊢
            omega
        · intro runId run hrun
          rcases hbatch.runs runId run hrun with hold | ⟨hnew, hmem⟩
          · by_cases hid : runId = record.triggerRunId
            · subst hid
              rw [AList.lookup_insert] at hold
              obtain rfl := Option.some.inj hold
              exact .inr ⟨hclaimed, List.mem_cons_self⟩
            · rw [AList.lookup_insert_ne hid] at hold
              exact .inl hold
          · rw [claimed_insert] at hnew
            exact .inr ⟨fun hold => hnew (.inl hold), List.mem_cons_of_mem _ hmem⟩

theorem lookup_record (s : MemTriggerStore) (vc : ValidCondition) (key : List Char) :
    (s.recordValidCondition vc).validConditions.lookup key =
      if key = vc.validConditionId then some vc else s.validConditions.lookup key := by
  split
  · rename_i hid
    rw [hid]
    exact AList.lookup_insert _
  · rename_i hid
    exact AList.lookup_insert_ne hid

/-- Removing ids takes exactly those out of the valid conditions. -/
theorem lookup_consume (s : MemTriggerStore) (consumed : List (List Char)) (key : List Char) :
    (s.consume consumed).validConditions.lookup key =
      if key ∈ consumed then none else s.validConditions.lookup key := by
  have hfold : ∀ (consumed : List (List Char)) (valid : HashMap (List Char) ValidCondition),
      (consumed.foldl (fun valid id => valid.erase id) valid).lookup key =
        if key ∈ consumed then none else valid.lookup key := by
    intro consumed
    induction consumed with
    | nil => intro valid; simp
    | cons id rest ih =>
        intro valid
        rw [List.foldl_cons, ih]
        by_cases hid : key = id
        · subst hid
          simp
        · simp [hid, AList.lookup_erase_ne hid]
  exact hfold consumed s.validConditions

/-- **A claim of an evaluation**: the batch, and then the consumption. -/
structure ClaimsAndConsumes (s : MemTriggerStore) (records : List TriggerRun)
    (consumed : List (List Char)) (flags : List Bool) (s' : MemTriggerStore) : Prop extends
    ClaimsBatch s records flags s' where
  valid : ∀ key, s'.validConditions.lookup key =
    if key ∈ consumed then none else s.validConditions.lookup key

theorem claim_claimsAndConsumes (now : Timestamp) (h : s.Recorded) (records : List TriggerRun)
    (consumed : List (List Char)) :
    ClaimsAndConsumes s records consumed (s.claimTriggerRunsWithRecords now records consumed).1
      (s.claimTriggerRunsWithRecords now records consumed).2 := by
  have hbatch := claimRuns_batch now records h
  obtain ⟨claims, runs, heq⟩ := claimRuns_eq now records s
  refine ⟨⟨hbatch.length, ⟨hbatch.recorded.claimed, hbatch.recorded.keyed⟩, hbatch.claimed,
    hbatch.counted, hbatch.runs⟩, ?_⟩
  intro key
  show ((claimRuns now s records).2.consume consumed).validConditions.lookup key = _
  rw [lookup_consume, heq]

end MemTriggerStore

end Rustvello.Mem
