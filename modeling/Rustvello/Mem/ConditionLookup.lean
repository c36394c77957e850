import Rustvello.Mem.TriggerStore
import Rustvello.Proto.ConditionIdentity

/-!
# Which conditions a report finds

A report looks conditions up by task or by event code and only then asks whether they
are satisfied.  The task index is filled from the leaves of a condition, the event index
from conditions that are events themselves.

* `lookup_conditions`, `mem_taskIndex`, `mem_eventIndex` — the tables after any sequence
  of registrations;
* `ends_recordSatisfied` — what a report leaves in the store;
* `Covered` — every satisfied composite is found by its context;
* `records_iff_covered` — the reports record exactly the satisfied conditions if and
  only if that is so;
* `compositeOfEvent_hidden` — a composite of an event is satisfied and not found.
-/

namespace Rustvello.Mem

open Concurrency Proto Rustvello.Core

/-! ## Indexes -/

section Index

variable {K α : Type} [DecidableEq K] [DecidableEq α]

theorem mem_pushNew (values : List α) (value x : α) :
    x ∈ pushNew values value ↔ x ∈ values ∨ x = value := by
  unfold pushNew
  split
  · rename_i hmem
    constructor
    · exact .inl
    · rintro (h | rfl)
      · exact h
      · exact hmem
  · simp

/-- An added value appears under its own key, and nothing else changes. -/
theorem mem_indexAdd (index : HashMap K (List α)) (key k : K) (value x : α) :
    x ∈ ((indexAdd index key value).lookup k).getD [] ↔
      x ∈ (index.lookup k).getD [] ∨ (k = key ∧ x = value) := by
  unfold indexAdd
  by_cases hk : k = key
  · subst hk
    rw [AList.lookup_insert]
    simp [mem_pushNew]
  · rw [AList.lookup_insert_ne hk]
    simp [hk]

theorem mem_foldl_indexAdd {β : Type} (keyOf : β → K) (value : α) (keys : List β)
    (index : HashMap K (List α)) (k : K) (x : α) :
    x ∈ ((keys.foldl (fun index b => indexAdd index (keyOf b) value) index).lookup k).getD [] ↔
      x ∈ (index.lookup k).getD [] ∨ ((∃ b ∈ keys, keyOf b = k) ∧ x = value) := by
  induction keys generalizing index with
  | nil => simp
  | cons b rest ih =>
      rw [List.foldl_cons, ih, mem_indexAdd]
      constructor
      · rintro ((h | ⟨rfl, rfl⟩) | ⟨⟨b', hb', rfl⟩, rfl⟩)
        · exact .inl h
        · exact .inr ⟨⟨b, List.mem_cons_self, rfl⟩, rfl⟩
        · exact .inr ⟨⟨b', List.mem_cons_of_mem _ hb', rfl⟩, rfl⟩
      · rintro (h | ⟨⟨b', hb', rfl⟩, rfl⟩)
        · exact .inl (.inl h)
        · rcases List.mem_cons.mp hb' with rfl | hb'
          · exact .inl (.inr ⟨rfl, rfl⟩)
          · exact .inr ⟨⟨b', hb', rfl⟩, rfl⟩

end Index

/-! ## The tables after registrations -/

section Registered

variable (codec : Codec) (conditions : List TriggerCondition)

/-- The condition last registered under an id. -/
def lastUnder (conditions : List TriggerCondition) (condId : ConditionId) :
    Option TriggerCondition :=
  conditions.reverse.find? fun cond => cond.conditionId codec = condId

theorem conditionId_of_lastUnder {conditions : List TriggerCondition} {condId : ConditionId}
    {cond : TriggerCondition} (h : lastUnder codec conditions condId = some cond) :
    cond.conditionId codec = condId := by
  simpa using List.find?_some h

theorem mem_of_lastUnder {conditions : List TriggerCondition} {condId : ConditionId}
    {cond : TriggerCondition} (h : lastUnder codec conditions condId = some cond) :
    cond ∈ conditions := by
  simpa using List.mem_of_find?_eq_some h

theorem registered_append (cond : TriggerCondition) :
    MemTriggerStore.registered codec (conditions ++ [cond]) =
      (MemTriggerStore.registered codec conditions).registerCondition codec cond := by
  simp [MemTriggerStore.registered]

theorem lookup_conditions (condId : ConditionId) :
    (MemTriggerStore.registered codec conditions).conditions.lookup condId =
      lastUnder codec conditions condId := by
  induction conditions using List.reverseRecOn with
  | nil => rfl
  | append_singleton conditions cond ih =>
      rw [registered_append]
      change (AList.insert (cond.conditionId codec) cond
        (MemTriggerStore.registered codec conditions).conditions).lookup condId = _
      have hlast : lastUnder codec (conditions ++ [cond]) condId =
          if cond.conditionId codec = condId then some cond
          else lastUnder codec conditions condId := by
        simp only [lastUnder, List.reverse_append, List.reverse_cons, List.reverse_nil,
          List.nil_append, List.cons_append, List.find?_cons]
        by_cases hid : cond.conditionId codec = condId <;> simp [hid]
      rw [hlast]
      by_cases hid : cond.conditionId codec = condId
      · rw [if_pos hid, ← hid, AList.lookup_insert]
      · rw [if_neg hid, AList.lookup_insert_ne (Ne.symm hid), ih]

/-- A condition is found under the `Display` texts of the tasks it watches. -/
def WatchesTask (cond : TriggerCondition) (text : String) : Prop :=
  ∃ taskId ∈ cond.sourceTaskIds, taskId.toText = text

theorem mem_taskIndex (text : String) (condId : ConditionId) :
    condId ∈ ((MemTriggerStore.registered codec conditions).sourceTaskConditions.lookup
        text).getD [] ↔
      ∃ cond ∈ conditions, cond.conditionId codec = condId ∧ WatchesTask cond text := by
  induction conditions using List.reverseRecOn with
  | nil => simp [MemTriggerStore.registered]
  | append_singleton conditions cond ih =>
      rw [registered_append]
      have hstep := mem_foldl_indexAdd TaskId.toText (cond.conditionId codec) cond.sourceTaskIds
        (MemTriggerStore.registered codec conditions).sourceTaskConditions text condId
      refine hstep.trans ?_
      rw [ih]
      constructor
      · rintro (⟨c, hc, h⟩ | ⟨hwatches, rfl⟩)
        · exact ⟨c, List.mem_append_left _ hc, h⟩
        · exact ⟨cond, by simp, rfl, hwatches⟩
      · rintro ⟨c, hc, hid, hwatches⟩
        rcases List.mem_append.mp hc with hc | hc
        · exact .inl ⟨c, hc, hid, hwatches⟩
        · obtain rfl := List.mem_singleton.mp hc
          exact .inr ⟨hwatches, hid.symm⟩

/-- The condition is itself an event condition of this code. -/
def IsEvent (cond : TriggerCondition) (eventCode : String) : Prop :=
  ∃ event, cond = .event event ∧ event.eventCode = eventCode

theorem mem_eventIndex (eventCode : String) (condId : ConditionId) :
    condId ∈ ((MemTriggerStore.registered codec conditions).eventConditions.lookup
        eventCode).getD [] ↔
      ∃ cond ∈ conditions, cond.conditionId codec = condId ∧ IsEvent cond eventCode := by
  induction conditions using List.reverseRecOn with
  | nil => simp [MemTriggerStore.registered]
  | append_singleton conditions cond ih =>
      rw [registered_append]
      have hstep : condId ∈ (((MemTriggerStore.registered codec conditions).registerCondition codec
          cond).eventConditions.lookup eventCode).getD [] ↔
          condId ∈ ((MemTriggerStore.registered codec conditions).eventConditions.lookup
            eventCode).getD [] ∨ (cond.conditionId codec = condId ∧ IsEvent cond eventCode) := by
        cases cond with
        | event event =>
            refine (mem_indexAdd _ event.eventCode eventCode
              ((TriggerCondition.event event).conditionId codec) condId).trans ?_
            simp [IsEvent, eq_comm, and_comm]
        | _ => simp [MemTriggerStore.registerCondition, IsEvent]
      rw [hstep, ih]
      constructor
      · rintro (⟨c, hc, h⟩ | h)
        · exact ⟨c, List.mem_append_left _ hc, h⟩
        · exact ⟨cond, by simp, h⟩
      · rintro ⟨c, hc, h⟩
        rcases List.mem_append.mp hc with hc | hc
        · exact .inl ⟨c, hc, h⟩
        · obtain rfl := List.mem_singleton.mp hc
          exact .inr h

@[simp] theorem registered_validConditions (conditions : List TriggerCondition) :
    (MemTriggerStore.registered codec conditions).validConditions = ∅ :=
  (MemTriggerStore.registered_idle codec conditions).1

/-- A lookup answers with the conditions last registered under the ids it finds. -/
theorem mem_resolve (ids : List ConditionId) (condId : ConditionId) (cond : TriggerCondition) :
    (condId, cond) ∈ (MemTriggerStore.registered codec conditions).resolve ids ↔
      condId ∈ ids ∧ lastUnder codec conditions condId = some cond := by
  simp only [MemTriggerStore.resolve, List.mem_filterMap, Option.map_eq_some_iff,
    Prod.mk.injEq]
  constructor
  · rintro ⟨id, hid, c, hlookup, rfl, rfl⟩
    exact ⟨hid, (lookup_conditions codec conditions id).symm.trans hlookup⟩
  · rintro ⟨hid, hlast⟩
    exact ⟨condId, hid, cond, (lookup_conditions codec conditions condId).trans hlast, rfl, rfl⟩

end Registered

/-! ## What a report leaves in the store -/

section Reports

variable (codec : Codec) {ctx : ConditionContext} (conditions : List TriggerCondition)
  {cond : TriggerCondition}

/-- What a report records of the conditions it has found. -/
def satisfiedOf (ctx : ConditionContext) (found : List (ConditionId × TriggerCondition)) :
    List ValidCondition :=
  (found.filter fun entry => entry.2.isSatisfiedBy codec ctx).map fun entry =>
    ValidCondition.new codec entry.1 ctx

theorem ends_recordSatisfied (ctx : ConditionContext)
    (found : List (ConditionId × TriggerCondition)) (s s' : MemTriggerStore)
    (r : List ValidCondition) :
    (recordSatisfied codec ctx found).Ends MemTriggerStore.exec s r s' ↔
      r = satisfiedOf codec ctx found ∧
        s' = (satisfiedOf codec ctx found).foldl MemTriggerStore.recordValidCondition s := by
  induction found generalizing s r with
  | nil => exact Iff.rfl
  | cons entry rest ih =>
      obtain ⟨condId, cond⟩ := entry
      unfold recordSatisfied
      split
      · rename_i hsat
        have hcons : satisfiedOf codec ctx ((condId, cond) :: rest) =
            ValidCondition.new codec condId ctx :: satisfiedOf codec ctx rest := by
          simp [satisfiedOf, hsat]
        rw [hcons]
        dsimp only
        rw [ends_store_bind]
        constructor
        · rintro ⟨env, h⟩
          obtain ⟨others, t, hrest, rfl, rfl⟩ := Prog.ends_bind.mp h
          obtain ⟨rfl, rfl⟩ := (ih _ _).mp hrest
          exact ⟨rfl, rfl⟩
        · rintro ⟨rfl, rfl⟩
          exact ⟨{}, Prog.ends_bind.mpr ⟨_, _, (ih _ _).mpr ⟨rfl, rfl⟩, rfl, rfl⟩⟩
      · rename_i hsat
        have hskip : satisfiedOf codec ctx ((condId, cond) :: rest) = satisfiedOf codec ctx rest := by
          simp [satisfiedOf, hsat]
        rw [hskip]
        exact ih s r

/-- The conditions that the report of a context looks at. -/
def lookupFor (s : MemTriggerStore) : ConditionContext → List (ConditionId × TriggerCondition)
  | .status ctx => s.getConditionsForTask ctx.taskId
  | .result ctx => s.getConditionsForTask ctx.taskId
  | .exception ctx => s.getConditionsForTask ctx.taskId
  | .event ctx => s.getEventConditions ctx.eventCode
  | .cron _ => []

/-- A report of the context can take the store from `s` to `s'`.  The id of an event is
the one its report generates; cron contexts are not reported. -/
def Reports (s : MemTriggerStore) : ConditionContext → MemTriggerStore → Prop
  | .status ctx, s' => ∃ r, (reportStatusChange codec ctx).Ends MemTriggerStore.exec s r s'
  | .result ctx, s' => ∃ r, (reportResult codec ctx).Ends MemTriggerStore.exec s r s'
  | .exception ctx, s' => ∃ r, (reportFailure codec ctx).Ends MemTriggerStore.exec s r s'
  | .event ctx, s' =>
      (emitEvent codec ctx.eventCode ctx.payload).Ends MemTriggerStore.exec s ctx.eventId s'
  | .cron _, _ => False

theorem ends_evaluateTaskConditions (taskId : TaskId) (ctx : ConditionContext)
    (s s' : MemTriggerStore) (r : List ValidCondition) :
    (evaluateTaskConditions codec taskId ctx).Ends MemTriggerStore.exec s r s' ↔
      r = satisfiedOf codec ctx (s.getConditionsForTask taskId) ∧
        s' = r.foldl MemTriggerStore.recordValidCondition s := by
  constructor
  · rintro ⟨env, h⟩
    obtain ⟨rfl, rfl⟩ := (ends_recordSatisfied codec ctx _ _ _ _).mp h
    exact ⟨rfl, rfl⟩
  · rintro ⟨rfl, rfl⟩
    exact ⟨{}, (ends_recordSatisfied codec ctx _ _ _ _).mpr ⟨rfl, rfl⟩⟩

theorem validConditions_foldl_record (vcs : List ValidCondition) {s t : MemTriggerStore}
    (h : t.validConditions = s.validConditions) :
    (vcs.foldl MemTriggerStore.recordValidCondition t).validConditions =
      (vcs.foldl MemTriggerStore.recordValidCondition s).validConditions := by
  induction vcs generalizing s t with
  | nil => exact h
  | cons vc rest ih =>
      rw [List.foldl_cons, List.foldl_cons]
      refine ih ?_
      simp [MemTriggerStore.recordValidCondition, h]

/-- Matching an event records what it satisfies; storing it touches no valid condition. -/
theorem ends_matchEvent (event : EventRecord) (conditions : List (ConditionId × TriggerCondition))
    {s s' : MemTriggerStore} {r : String}
    (h : (matchEvent codec event conditions).Ends MemTriggerStore.exec s r s') :
    r = event.eventId ∧ s'.validConditions =
      ((satisfiedOf codec (.event ⟨event.eventId, event.eventCode, event.payload⟩)
        conditions).foldl MemTriggerStore.recordValidCondition s).validConditions := by
  obtain ⟨valid, t, hrecord, h⟩ := Prog.ends_bind.mp h
  obtain ⟨rfl, rfl⟩ := (ends_recordSatisfied codec _ _ _ _ _).mp hrecord
  dsimp only at h
  split at h
  · obtain ⟨_, hid, rfl⟩ := h
    exact ⟨hid, rfl⟩
  · obtain ⟨hid, rfl⟩ := h
    exact ⟨hid, rfl⟩

/-- A report records the satisfied ones among the conditions it looks at. -/
theorem Reports.validConditions {s s' : MemTriggerStore} (h : Reports codec s ctx s') :
    s'.validConditions = ((satisfiedOf codec ctx (lookupFor s ctx)).foldl
      MemTriggerStore.recordValidCondition s).validConditions := by
  cases ctx with
  | cron ctx => exact False.elim h
  | status ctx =>
      obtain ⟨r, h⟩ := h
      obtain ⟨rfl, rfl⟩ := (ends_evaluateTaskConditions codec _ _ _ _ _).mp h
      rfl
  | result ctx =>
      obtain ⟨r, h⟩ := h
      obtain ⟨rfl, rfl⟩ := (ends_evaluateTaskConditions codec _ _ _ _ _).mp h
      rfl
  | exception ctx =>
      obtain ⟨r, h⟩ := h
      obtain ⟨rfl, rfl⟩ := (ends_evaluateTaskConditions codec _ _ _ _ _).mp h
      rfl
  | event ctx =>
      obtain ⟨idEnv, nowEnv, _, _, h⟩ := h
      obtain ⟨hid, hvalid⟩ := ends_matchEvent codec _ _ h
      have hid : ctx.eventId = idEnv.eventId := hid
      obtain ⟨eventId, eventCode, payload⟩ := ctx
      obtain rfl : eventId = idEnv.eventId := hid
      exact hvalid.trans (validConditions_foldl_record _ rfl)

/-- Every context but a cron context is reported, and its report ends. -/
theorem reports_total (s : MemTriggerStore)
    (hctx : ∀ cron, ctx ≠ .cron cron) : ∃ s', Reports codec s ctx s' := by
  have htotal : ∀ {α : Type} (p : Manager α), ∃ s' r, p.Ends MemTriggerStore.exec s r s' := by
    intro α p
    obtain ⟨r, s', h⟩ := Prog.ends_total MemTriggerStore.exec p s
    exact ⟨s', r, h⟩
  cases ctx with
  | cron ctx => exact absurd rfl (hctx ctx)
  | status ctx => exact htotal _
  | result ctx => exact htotal _
  | exception ctx => exact htotal _
  | event ctx =>
      -- the surroundings generate the id of the context
      let event : EventRecord := ⟨ctx.eventId, ctx.eventCode, ctx.payload, 0, [], [], []⟩
      let stored : MemTriggerStore := { s with events := s.events.insert ctx.eventId event }
      obtain ⟨r, s', h⟩ := Prog.ends_total MemTriggerStore.exec
        (matchEvent codec event (stored.getEventConditions ctx.eventCode)) stored
      have hid : r = ctx.eventId := (ends_matchEvent codec event _ h).1
      subst hid
      exact ⟨s', { eventId := ctx.eventId }, {}, {}, {}, h⟩

/-! ## Recorded and satisfied -/

/-- A valid condition of this condition and context is in the store. -/
def Recorded (s : MemTriggerStore) (condId : ConditionId) (ctx : ConditionContext) : Prop :=
  s.validConditions.lookup (validConditionIdOf codec condId ctx) =
    some (ValidCondition.new codec condId ctx)

/-- For one context, valid conditions of different conditions have different ids. -/
theorem validConditionIdOf_inj {c d : ConditionId}
    (h : validConditionIdOf codec c ctx = validConditionIdOf codec d ctx) : c = d := by
  unfold validConditionIdOf at h
  simp only [List.append_assoc] at h
  have hraw := List.append_cancel_right (List.append_cancel_left h)
  cases c
  cases d
  exact congrArg ConditionId.mk hraw

theorem lookup_foldl_record (ctx : ConditionContext) (ids : List ConditionId)
    (s : MemTriggerStore) (condId : ConditionId) :
    ((ids.map fun id => ValidCondition.new codec id ctx).foldl
        MemTriggerStore.recordValidCondition s).validConditions.lookup
          (validConditionIdOf codec condId ctx) =
      if condId ∈ ids then some (ValidCondition.new codec condId ctx)
      else s.validConditions.lookup (validConditionIdOf codec condId ctx) := by
  induction ids generalizing s with
  | nil => simp
  | cons id rest ih =>
      rw [List.map_cons, List.foldl_cons, ih]
      by_cases hrest : condId ∈ rest
      · rw [if_pos hrest, if_pos (List.mem_cons_of_mem _ hrest)]
      · rw [if_neg hrest]
        by_cases hid : condId = id
        · subst hid
          rw [if_pos List.mem_cons_self]
          exact AList.lookup_insert _
        · have hkey : validConditionIdOf codec condId ctx ≠ validConditionIdOf codec id ctx :=
            fun heq => hid (validConditionIdOf_inj codec heq)
          rw [if_neg (by simp [hid, hrest])]
          exact AList.lookup_insert_ne hkey

/-- A report after registrations records what its lookup finds satisfied. -/
theorem recorded_iff {s' : MemTriggerStore}
    (h : Reports codec (MemTriggerStore.registered codec conditions) ctx s')
    (condId : ConditionId) :
    Recorded codec s' condId ctx ↔
      ∃ cond, (condId, cond) ∈ lookupFor (MemTriggerStore.registered codec conditions) ctx ∧
        cond.isSatisfiedBy codec ctx = true := by
  have hids : satisfiedOf codec ctx (lookupFor (MemTriggerStore.registered codec conditions) ctx) =
      (((lookupFor (MemTriggerStore.registered codec conditions) ctx).filter fun entry =>
        entry.2.isSatisfiedBy codec ctx).map Prod.fst).map
          fun id => ValidCondition.new codec id ctx := by
    simp [satisfiedOf]
  unfold Recorded
  rw [h.validConditions, hids, lookup_foldl_record, registered_validConditions]
  constructor
  · intro hlookup
    split at hlookup
    · rename_i hmem
      obtain ⟨⟨id, cond⟩, hentry, rfl⟩ := List.mem_map.mp hmem
      obtain ⟨hfound, hsat⟩ := List.mem_filter.mp hentry
      exact ⟨cond, hfound, hsat⟩
    · simp at hlookup
  · rintro ⟨cond, hfound, hsat⟩
    rw [if_pos]
    exact List.mem_map.mpr ⟨(condId, cond), List.mem_filter.mpr ⟨hfound, hsat⟩, rfl⟩

/-- The condition last registered under the id is satisfied. -/
def Satisfied (conditions : List TriggerCondition) (condId : ConditionId)
    (ctx : ConditionContext) : Prop :=
  ∃ cond, lastUnder codec conditions condId = some cond ∧ cond.isSatisfiedBy codec ctx = true

/-- The task a context is about. -/
def taskOf : ConditionContext → Option TaskId
  | .status ctx => some ctx.taskId
  | .result ctx => some ctx.taskId
  | .exception ctx => some ctx.taskId
  | .event _ | .cron _ => none

/-- The index that a context is looked up in holds the condition. -/
def FoundBy (cond : TriggerCondition) : ConditionContext → Prop
  | .status ctx => WatchesTask cond ctx.taskId.toText
  | .result ctx => WatchesTask cond ctx.taskId.toText
  | .exception ctx => WatchesTask cond ctx.taskId.toText
  | .event ctx => IsEvent cond ctx.eventCode
  | .cron _ => False

theorem mem_lookupFor (ctx : ConditionContext) (condId : ConditionId) (cond : TriggerCondition) :
    (condId, cond) ∈ lookupFor (MemTriggerStore.registered codec conditions) ctx ↔
      (∃ c ∈ conditions, c.conditionId codec = condId ∧ FoundBy c ctx) ∧
        lastUnder codec conditions condId = some cond := by
  cases ctx with
  | cron ctx => simp [lookupFor, FoundBy]
  | event ctx =>
      exact (mem_resolve codec conditions _ condId cond).trans
        (and_congr_left fun _ => mem_eventIndex codec conditions ctx.eventCode condId)
  | _ =>
      exact (mem_resolve codec conditions _ condId cond).trans
        (and_congr_left fun _ => mem_taskIndex codec conditions _ condId)

/-- A satisfied condition that is no composite is found by its context. -/
theorem foundBy_of_satisfied (hctx : ∀ cron, ctx ≠ .cron cron)
    (hatom : ∀ logic children, cond ≠ .composite logic children)
    (hsat : cond.isSatisfiedBy codec ctx = true) : FoundBy cond ctx := by
  have hwatches : ∀ (c : TriggerCondition) (taskId taskId' : TaskId), c.sourceTaskIds = [taskId] →
      taskId = taskId' → WatchesTask c taskId'.toText := by
    rintro c taskId _ hsource rfl
    exact ⟨taskId, by simp [hsource], rfl⟩
  cases cond with
  | composite logic children => exact absurd rfl (hatom logic children)
  | cron cond =>
      cases ctx with
      | cron ctx => exact absurd rfl (hctx ctx)
      | _ => simp [TriggerCondition.isSatisfiedBy] at hsat
  | status cond =>
      cases ctx with
      | status ctx =>
          simp only [TriggerCondition.isSatisfiedBy, Bool.and_eq_true, decide_eq_true_eq] at hsat
          exact hwatches _ cond.taskId _ rfl hsat.1.1
      | _ => simp [TriggerCondition.isSatisfiedBy] at hsat
  | event cond =>
      cases ctx with
      | event ctx =>
          simp only [TriggerCondition.isSatisfiedBy, Bool.and_eq_true, decide_eq_true_eq] at hsat
          exact ⟨cond, rfl, hsat.1⟩
      | _ => simp [TriggerCondition.isSatisfiedBy] at hsat
  | result cond =>
      cases ctx with
      | result ctx =>
          simp only [TriggerCondition.isSatisfiedBy, Bool.and_eq_true, decide_eq_true_eq] at hsat
          exact hwatches _ cond.taskId _ rfl hsat.1.1
      | _ => simp [TriggerCondition.isSatisfiedBy] at hsat
  | exception cond =>
      cases ctx with
      | exception ctx =>
          simp only [TriggerCondition.isSatisfiedBy, Bool.and_eq_true, decide_eq_true_eq] at hsat
          exact hwatches _ cond.taskId _ rfl hsat.1.1
      | _ => simp [TriggerCondition.isSatisfiedBy] at hsat

/-- Every composite that is satisfied by the context and was registered last under its id
shares the id with a registered condition that watches the context's task.  An event has
no task, so there must be no such composite. -/
def Covered (conditions : List TriggerCondition) (ctx : ConditionContext) : Prop :=
  ∀ logic children,
    lastUnder codec conditions ((TriggerCondition.composite logic children).conditionId codec) =
      some (.composite logic children) →
    (TriggerCondition.composite logic children).isSatisfiedBy codec ctx = true →
    ∃ taskId ∈ taskOf ctx, ∃ c ∈ conditions,
      c.conditionId codec = (TriggerCondition.composite logic children).conditionId codec ∧
        WatchesTask c taskId.toText

theorem foundBy_of_watchesTask {taskId : TaskId} (htask : taskId ∈ taskOf ctx)
    (h : WatchesTask cond taskId.toText) : FoundBy cond ctx := by
  cases ctx with
  | event ctx => exact absurd htask (by simp [taskOf])
  | cron ctx => exact absurd htask (by simp [taskOf])
  | _ =>
      obtain rfl := Option.some.inj htask
      exact h

/-- What is found under the id of a composite is no event. -/
theorem watchesTask_of_foundBy {logic : CompositeLogic} {children : List TriggerCondition}
    (hid : cond.conditionId codec = (TriggerCondition.composite logic children).conditionId codec)
    (h : FoundBy cond ctx) : ∃ taskId ∈ taskOf ctx, WatchesTask cond taskId.toText := by
  cases ctx with
  | cron ctx => exact False.elim h
  | event ctx =>
      obtain ⟨event, rfl, _⟩ := h
      have htexts := congrArg (fun id => id.raw.take 3) hid
      have htags : idTag (.event event) = idTag (.composite logic children) := by
        rw [← @take_idText codec, ← @take_idText codec]
        exact htexts
      exact absurd htags (by simp [idTag])
  | status ctx => exact ⟨ctx.taskId, rfl, h⟩
  | result ctx => exact ⟨ctx.taskId, rfl, h⟩
  | exception ctx => exact ⟨ctx.taskId, rfl, h⟩

/-- The lookups hide no satisfied condition exactly when the composites are covered. -/
theorem found_iff_covered (hctx : ∀ cron, ctx ≠ .cron cron) :
    (∀ condId, Satisfied codec conditions condId ctx →
      ∃ c ∈ conditions, c.conditionId codec = condId ∧ FoundBy c ctx) ↔
        Covered codec conditions ctx := by
  constructor
  · intro hfound logic children hlast hsat
    obtain ⟨c, hc, hid, hfoundBy⟩ := hfound _ ⟨_, hlast, hsat⟩
    obtain ⟨taskId, htask, hwatches⟩ := watchesTask_of_foundBy codec hid hfoundBy
    exact ⟨taskId, htask, c, hc, hid, hwatches⟩
  · rintro hcovered condId ⟨cond, hlast, hsat⟩
    by_cases hcomposite : ∃ logic children, cond = .composite logic children
    · obtain ⟨logic, children, rfl⟩ := hcomposite
      have hid := conditionId_of_lastUnder codec hlast
      subst hid
      obtain ⟨taskId, htask, c, hc, hid, hwatches⟩ := hcovered logic children hlast hsat
      exact ⟨c, hc, hid, foundBy_of_watchesTask htask hwatches⟩
    · refine ⟨cond, mem_of_lastUnder codec hlast, conditionId_of_lastUnder codec hlast, ?_⟩
      exact foundBy_of_satisfied codec hctx (fun logic children heq =>
        hcomposite ⟨logic, children, heq⟩) hsat

/-- Reports end, and they record exactly the satisfied conditions if and only if every
satisfied composite is covered. -/
theorem records_iff_covered (conditions : List TriggerCondition) {ctx : ConditionContext}
    (hctx : ∀ cron, ctx ≠ .cron cron) :
    (∃ s', Reports codec (MemTriggerStore.registered codec conditions) ctx s') ∧
      ∀ s', Reports codec (MemTriggerStore.registered codec conditions) ctx s' →
        ((∀ condId, Recorded codec s' condId ctx ↔ Satisfied codec conditions condId ctx) ↔
          Covered codec conditions ctx) := by
  refine ⟨reports_total codec _ hctx, fun s' hreport => ?_⟩
  rw [← found_iff_covered codec conditions hctx]
  refine forall_congr' fun condId => ?_
  have hrecorded := recorded_iff codec conditions hreport condId
  constructor
  · intro hiff hsat
    obtain ⟨cond, hfound, _⟩ := hrecorded.mp (hiff.mpr hsat)
    exact ((mem_lookupFor codec conditions ctx condId cond).mp hfound).1
  · intro hfound
    constructor
    · intro hrec
      obtain ⟨cond, hmem, hsat⟩ := hrecorded.mp hrec
      exact ⟨cond, ((mem_lookupFor codec conditions ctx condId cond).mp hmem).2, hsat⟩
    · rintro ⟨cond, hlast, hsat⟩
      have hmem := (mem_lookupFor codec conditions ctx condId cond).mpr
        ⟨hfound ⟨cond, hlast, hsat⟩, hlast⟩
      exact hrecorded.mpr ⟨cond, hmem, hsat⟩

end Reports

/-- An event of code `paid`. -/
def paidContext : ConditionContext :=
  .event ⟨"e-1", "paid", .null⟩

def jobTask : TaskId := ⟨.rust, "app", "job"⟩

/-- A run of the task has succeeded. -/
def successContext : ConditionContext :=
  .status ⟨⟨"i"⟩, jobTask, .success, .empty⟩

/-- A composite of a condition on the successes of the task. -/
def compositeOfStatus : TriggerCondition :=
  .composite .or [.status ⟨jobTask, [.success], none⟩]

/-- A composite that watches the task of the context is covered: the context records it. -/
theorem records_iff_covered_success : ∃ s',
    Reports sampleCodec (MemTriggerStore.registered sampleCodec [onEvent "paid", compositeOfStatus])
        successContext s' ∧
      Recorded sampleCodec s' (compositeOfStatus.conditionId sampleCodec) successContext := by
  obtain ⟨⟨s', hreport⟩, hiff⟩ := @records_iff_covered sampleCodec
    [onEvent "paid", compositeOfStatus] successContext (by simp [successContext])
  have hcovered : Covered sampleCodec [onEvent "paid", compositeOfStatus] successContext := by
    intro logic children hlast _
    have hmem := mem_of_lastUnder sampleCodec hlast
    rw [List.mem_pair] at hmem
    rcases hmem with hevent | hcomposite
    · cases hevent
    · exact ⟨jobTask, rfl, compositeOfStatus, by simp, by rw [hcomposite],
        jobTask, by decide, rfl⟩
  exact ⟨s', hreport, ((hiff s' hreport).mpr hcovered _).mpr
    ⟨compositeOfStatus, by rfl, by decide⟩⟩

/-- A composite of one event condition. -/
def compositeOfEvent : TriggerCondition :=
  .composite .or [onEvent "paid"]

/-- The composite is satisfied by the event, and its report does not record it. -/
theorem compositeOfEvent_hidden :
    Satisfied sampleCodec [compositeOfEvent] (compositeOfEvent.conditionId sampleCodec)
        paidContext ∧
      ∀ s', Reports sampleCodec (MemTriggerStore.registered sampleCodec [compositeOfEvent])
          paidContext s' →
        ¬ Recorded sampleCodec s' (compositeOfEvent.conditionId sampleCodec) paidContext := by
  refine ⟨⟨compositeOfEvent, by rfl, by decide⟩, fun s' hreport hrecorded => ?_⟩
  obtain ⟨cond, hfound, _⟩ := (recorded_iff sampleCodec _ hreport _).mp hrecorded
  have hnone : lookupFor (MemTriggerStore.registered sampleCodec [compositeOfEvent])
      paidContext = [] := by rfl
  rw [hnone] at hfound
  exact absurd hfound (by simp)

end Rustvello.Mem
