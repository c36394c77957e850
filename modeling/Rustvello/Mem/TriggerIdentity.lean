import Rustvello.Mem.TriggerEvaluation
import Mathlib.Data.List.Find

/-!
# What a trigger id determines

The id of a trigger is the digest of its task, its sorted condition ids and its logic
(`compute_trigger_id`); the arguments it passes on are not part of it.  Stores keep definitions
under this id, and a later definition with the same id replaces an earlier one.

* `Registration` — a trigger that is built for a task, and registered;
* `Registration.Separable` — the names do not contain what separates the fields of an id;
* `SameTrigger` — what an id stands for;
* `trigger_ids_exact` — separable definitions have one id exactly if they are the same trigger,
  and the store keeps the last definition of every trigger.
-/

namespace Rustvello.Mem

open Concurrency Proto Rustvello.Core Text

/-- A trigger that is built and registered for a target task. -/
structure Registration where
  builder : TriggerBuilder
  targetTaskId : TaskId

namespace Registration

variable (codec : Codec)

def build (r : Registration) : RustvelloResult TriggerDefinitionDTO :=
  r.builder.build codec r.targetTaskId

def register (s : MemTriggerStore) (r : Registration) : MemTriggerStore :=
  (r.builder.buildAndRegister codec r.targetTaskId s).2

end Registration

/-- The definitions that some registrations make; those without conditions make none. -/
def definitions (codec : Codec) (registrations : List Registration) :
    List TriggerDefinitionDTO :=
  registrations.filterMap fun r => (r.build codec).toOption

/-- A store after some registrations. -/
def registerAll (codec : Codec) (registrations : List Registration) : MemTriggerStore :=
  registrations.foldl (Registration.register codec) {}

/-! ## The text under the digest -/

/-- How condition ids begin. -/
def idMarks : List (List Char) :=
  ["cron_".toList, "condition#".toList, "event#".toList, "composite#".toList]

theorem comma_notMem_idMarks : ∀ mark ∈ idMarks, ',' ∉ mark := by
  decide

/-- Every condition id begins with a mark. -/
theorem idText_begins (codec : Codec) (cond : TriggerCondition) :
    ∃ mark ∈ idMarks, mark <+: cond.idText codec := by
  have hcron : "cron_".toList ∈ idMarks := by decide
  have hcondition : "condition#".toList ∈ idMarks := by decide
  have hevent : "event#".toList ∈ idMarks := by decide
  have hcomposite : "composite#".toList ∈ idMarks := by decide
  have hstatus : ∀ (status : StatusCondition) (tail : List Char),
      "condition#".toList <+: statusConditionId codec status ++ tail := by
    intro status tail
    unfold statusConditionId
    generalize "condition#".toList = mark
    simp only [List.append_assoc]
    exact List.prefix_append mark _
  cases cond with
  | cron cond =>
      refine ⟨_, hcron, ?_⟩
      rw [TriggerCondition.idText]
      unfold cronConditionId
      generalize "cron_".toList = mark
      exact List.prefix_append mark _
  | status cond =>
      have hbegin := hstatus cond []
      rw [List.append_nil] at hbegin
      refine ⟨_, hcondition, ?_⟩
      rw [TriggerCondition.idText]
      exact hbegin
  | event cond =>
      refine ⟨_, hevent, ?_⟩
      rw [TriggerCondition.idText]
      unfold eventConditionId
      generalize "event#".toList = mark
      simp only [List.append_assoc]
      exact List.prefix_append mark _
  | result cond =>
      refine ⟨_, hcondition, ?_⟩
      rw [TriggerCondition.idText]
      unfold resultConditionId
      rw [List.append_assoc]
      exact hstatus _ _
  | exception cond =>
      refine ⟨_, hcondition, ?_⟩
      rw [TriggerCondition.idText]
      unfold exceptionConditionId
      rw [List.append_assoc]
      exact hstatus _ _
  | composite logic children =>
      refine ⟨_, hcomposite, ?_⟩
      rw [TriggerCondition.idText]
      unfold compositeConditionId
      generalize "composite#".toList = mark
      simp only [List.append_assoc]
      exact List.prefix_append mark _

/-- The target is a well-formed task without a bar in its name, and no condition id contains a
comma with the beginning of a condition id behind it. -/
structure Registration.Separable (codec : Codec) (r : Registration) : Prop where
  valid : r.targetTaskId.Valid
  bar : '|' ∉ r.targetTaskId.toText.toList
  comma : ∀ cond ∈ r.builder.conditions, ∀ mark ∈ idMarks,
    ¬ ',' :: mark <:+: cond.idText codec

/-- What an id stands for: a task, a logic and conditions in any order. -/
def SameTrigger (d d' : TriggerDefinitionDTO) : Prop :=
  d.taskId = d'.taskId ∧ d.logic = d'.logic ∧ d.conditionIds.Perm d'.conditionIds

instance (d d' : TriggerDefinitionDTO) : Decidable (SameTrigger d d') :=
  inferInstanceAs (Decidable (_ ∧ _ ∧ _))

theorem SameTrigger.refl (d : TriggerDefinitionDTO) : SameTrigger d d :=
  ⟨rfl, rfl, .refl _⟩

/-! ## Ids -/

section Ids

variable {codec : Codec}

/-- What a registration builds. -/
theorem build_eq_ok {r : Registration} {d : TriggerDefinitionDTO} (h : r.build codec = .ok d) :
    d = { triggerId := computeTriggerId codec r.targetTaskId
            (r.builder.conditions.map (TriggerCondition.conditionId codec)) r.builder.logic
          taskId := r.targetTaskId
          conditionIds := r.builder.conditions.map (TriggerCondition.conditionId codec)
          logic := r.builder.logic
          argumentTemplate := r.builder.argumentTemplate } := by
  unfold Registration.build TriggerBuilder.build at h
  split at h
  · cases h
  · exact (Except.ok.inj h).symm

theorem bar_notMem_display (logic : TriggerLogic) : '|' ∉ logic.display := by
  cases logic <;> decide

theorem display_inj {logic logic' : TriggerLogic} (h : logic.display = logic'.display) :
    logic = logic' := by
  cases logic <;> cases logic' <;> first | rfl | exact absurd h (by decide)

/-- The condition ids of a separable registration are marked words. -/
theorem Registration.Separable.marked {r : Registration} (h : r.Separable codec) :
    ∀ text ∈ sortTexts ((r.builder.conditions.map (TriggerCondition.conditionId codec)).map
      ConditionId.raw), Marked ',' idMarks text := by
  intro text htext
  rw [mem_sortTexts, List.map_map, List.mem_map] at htext
  obtain ⟨cond, hcond, rfl⟩ := htext
  exact ⟨idText_begins codec cond, h.comma cond hcond⟩

theorem sortTexts_perm {as bs : List (List Char)} : sortTexts as = sortTexts bs ↔ as.Perm bs := by
  constructor
  · intro h
    have hperm : (sortTexts as).Perm bs := h ▸ List.perm_insertionSort _ bs
    exact (List.perm_insertionSort _ as).symm.trans hperm
  · intro h
    have hperm : (sortTexts as).Perm (sortTexts bs) :=
      (List.perm_insertionSort _ as).trans (h.trans (List.perm_insertionSort _ bs).symm)
    exact hperm.eq_of_pairwise (fun a b _ _ hab hba => le_antisymm hab hba)
      (List.pairwise_insertionSort _ as) (List.pairwise_insertionSort _ bs)

/-- **Separable definitions have one id exactly if they are the same trigger**. -/
theorem triggerId_eq_iff (hcodec : codec.Sound) {r r' : Registration} (hr : r.Separable codec)
    (hr' : r'.Separable codec) {d d' : TriggerDefinitionDTO} (hd : r.build codec = .ok d)
    (hd' : r'.build codec = .ok d') : d.triggerId = d'.triggerId ↔ SameTrigger d d' := by
  rw [build_eq_ok hd, build_eq_ok hd']
  have hraw : Function.Injective ConditionId.raw := by
    rintro ⟨a⟩ ⟨b⟩ h
    exact congrArg ConditionId.mk h
  constructor
  · intro h
    have htext := hcodec.sha256Hex_injective (TriggerDefinitionId.mk.inj h)
    simp only [List.append_assoc, List.singleton_append] at htext
    -- the logic stands behind the last bar, the task before the first one
    rw [← List.append_assoc, ← List.append_assoc] at htext
    obtain ⟨hfront, hlogic⟩ :=
      append_cons_inj_right (bar_notMem_display _) (bar_notMem_display _) htext
    obtain ⟨htask, hids⟩ := append_cons_inj_left hr.bar hr'.bar hfront
    have hsorted := terminated_inj comma_notMem_idMarks hr.marked hr'.marked hids
    exact ⟨TaskId.toText_inj hr.valid hr'.valid htask, display_inj hlogic,
      (List.map_perm_map_iff hraw).mp (sortTexts_perm.mp hsorted)⟩
  · rintro ⟨htask, hlogic, hperm⟩
    dsimp only at htask hlogic hperm ⊢
    have hsorted := sortTexts_perm.mpr (hperm.map ConditionId.raw)
    unfold computeTriggerId
    rw [htask, hlogic, hsorted]

end Ids

/-! ## The store -/

section Store

variable (codec : Codec) (registrations : List Registration) (r : Registration)

theorem registerAll_append :
    registerAll codec (registrations ++ [r]) = r.register codec (registerAll codec registrations) := by
  unfold registerAll
  rw [List.foldl_append]
  rfl

theorem definitions_append :
    definitions codec (registrations ++ [r]) =
      definitions codec registrations ++ (r.build codec).toOption.toList := by
  unfold definitions
  rw [List.filterMap_append]
  cases h : (r.build codec).toOption <;> simp [h]

/-- Conditions are registered beside the triggers. -/
theorem registerCondition_triggers (conditions : List TriggerCondition) (s : MemTriggerStore) :
    (conditions.foldl (MemTriggerStore.registerCondition codec) s).triggers = s.triggers ∧
      (conditions.foldl (MemTriggerStore.registerCondition codec) s).conditionTriggers =
        s.conditionTriggers := by
  induction conditions generalizing s with
  | nil => exact ⟨rfl, rfl⟩
  | cons cond rest ih => exact ih (s.registerCondition codec cond)

/-- A registration registers what it builds, after its conditions. -/
theorem register_cases (s : MemTriggerStore) :
    (r.build codec).toOption = none ∧ r.register codec s = s ∨
      ∃ d, r.build codec = .ok d ∧ r.register codec s =
        (r.builder.conditions.foldl (MemTriggerStore.registerCondition codec) s).registerTrigger
          d := by
  unfold Registration.register Registration.build TriggerBuilder.buildAndRegister
    TriggerBuilder.build
  by_cases hempty : r.builder.conditions.isEmpty = true
  · rw [if_pos hempty, if_pos hempty]
    exact .inl ⟨rfl, rfl⟩
  · rw [if_neg hempty, if_neg hempty]
    exact .inr ⟨_, rfl, rfl⟩

theorem registerAll_indexed :
    (registerAll codec registrations).TriggersIndexed := by
  induction registrations using List.reverseRecOn with
  | nil => constructor <;> intro id trigger hlookup <;> simp [registerAll] at hlookup
  | append_singleton registrations r ih =>
      rw [registerAll_append]
      rcases register_cases codec r (registerAll codec registrations) with ⟨-, hsame⟩ | ⟨d, -, hreg⟩
      · rw [hsame]
        exact ih
      · rw [hreg]
        obtain ⟨htriggers, hindex⟩ :=
          registerCondition_triggers codec r.builder.conditions (registerAll codec registrations)
        apply MemTriggerStore.TriggersIndexed.registerTrigger
        constructor
        · rw [htriggers]
          exact ih.keyed
        · rw [htriggers, hindex]
          exact ih.indexed

/-- The store keeps the last definition with an id. -/
theorem lookup_registerAll (id : TriggerDefinitionId) :
    (registerAll codec registrations).triggers.lookup id =
      (definitions codec registrations).reverse.find? fun d => d.triggerId = id := by
  induction registrations using List.reverseRecOn with
  | nil => simp [registerAll, definitions]
  | append_singleton registrations r ih =>
      rw [registerAll_append, definitions_append]
      rcases register_cases codec r (registerAll codec registrations) with
        ⟨hnone, hsame⟩ | ⟨d, hbuild, hreg⟩
      · rw [hsame, hnone, ih]
        simp
      · have hlast : (r.build codec).toOption.toList = [d] := by rw [hbuild]; rfl
        rw [hreg, hlast, List.reverse_append, List.reverse_singleton, List.singleton_append,
          List.find?_cons]
        unfold MemTriggerStore.registerTrigger
        by_cases hid : d.triggerId = id
        · subst hid
          simp
        · have hne : ¬id = d.triggerId := fun heq => hid heq.symm
          simp only [hid, decide_false, AList.lookup_insert_ne hne,
            (registerCondition_triggers codec _ _).1, ih]

/-- The last registration is the one that is kept. -/
theorem lookup_last {r : Registration} {d : TriggerDefinitionDTO} (h : r.build codec = .ok d) :
    (registerAll codec (registrations ++ [r])).triggers.lookup d.triggerId = some d := by
  have hlast : (r.build codec).toOption.toList = [d] := by rw [h]; rfl
  rw [lookup_registerAll, definitions_append, hlast, List.reverse_append]
  simp

/-- Every definition was built by one of the registrations. -/
theorem mem_definitions {registrations : List Registration} {d : TriggerDefinitionDTO} :
    d ∈ definitions codec registrations ↔ ∃ r ∈ registrations, r.build codec = .ok d := by
  unfold definitions
  rw [List.mem_filterMap]
  refine exists_congr fun r => and_congr_right fun _ => ?_
  cases h : r.build codec <;> simp [Except.toOption]

end Store

/-- **Separable triggers are told apart.**  However many definitions are built and registered,
two of them have one id exactly if they have one task, one logic and the same conditions in any
order, whatever arguments they pass on.  The store holds the last definition of every such
trigger under its id, and finds it by each of its conditions. -/
theorem trigger_ids_exact {codec : Codec} (hcodec : codec.Sound)
    (registrations : List Registration) (h : ∀ r ∈ registrations, r.Separable codec) :
    (∀ d ∈ definitions codec registrations, ∀ d' ∈ definitions codec registrations,
      (d.triggerId = d'.triggerId ↔ SameTrigger d d')) ∧
    ∀ d ∈ definitions codec registrations, ∃ kept,
      (registerAll codec registrations).triggers.lookup d.triggerId = some kept ∧
      (definitions codec registrations).reverse.find? (fun d' => SameTrigger d' d) = some kept ∧
      ∀ condId ∈ d.conditionIds,
        kept ∈ (registerAll codec registrations).getTriggersForCondition condId := by
  have hids : ∀ d ∈ definitions codec registrations, ∀ d' ∈ definitions codec registrations,
      (d.triggerId = d'.triggerId ↔ SameTrigger d d') := by
    intro d hd d' hd'
    obtain ⟨r, hr, hbuild⟩ := (mem_definitions codec).mp hd
    obtain ⟨r', hr', hbuild'⟩ := (mem_definitions codec).mp hd'
    exact triggerId_eq_iff hcodec (h r hr) (h r' hr') hbuild hbuild'
  refine ⟨hids, fun d hd => ?_⟩
  have hfind : (definitions codec registrations).reverse.find?
      (fun d' => d'.triggerId = d.triggerId) =
        (definitions codec registrations).reverse.find? fun d' => SameTrigger d' d := by
    apply List.find?_congr
    intro d' hd'
    exact decide_eq_decide.mpr (hids d' (List.mem_reverse.mp hd') d hd)
  -- the definition itself is among those of its trigger, so one is kept
  have hsome : ((definitions codec registrations).reverse.find?
      fun d' => SameTrigger d' d).isSome = true := by
    rw [List.find?_isSome]
    exact ⟨d, List.mem_reverse.mpr hd, decide_eq_true (SameTrigger.refl d)⟩
  obtain ⟨kept, hkept⟩ := Option.isSome_iff_exists.mp hsome
  have hlookup : (registerAll codec registrations).triggers.lookup d.triggerId = some kept := by
    rw [lookup_registerAll, hfind, hkept]
  refine ⟨kept, hlookup, hkept, fun condId hcond => ?_⟩
  have hsame : SameTrigger kept d := by simpa using List.find?_some hkept
  have hindexed := registerAll_indexed codec registrations
  have hown : kept.triggerId = d.triggerId := hindexed.keyed _ _ hlookup
  rw [← hown] at hlookup
  exact hindexed.found hlookup (hsame.2.2.mem_iff.mpr hcond)

/-! ## Triggers with one id -/

/-- A mail for every payment, with an argument. -/
def mailPaid (batch : Int) : Registration where
  builder := (TriggerBuilder.onEvent {} "paid").withStaticArgs (.number (.int batch))
  targetTaskId := ⟨.rust, "mail", "send"⟩

/-- A mail once `a` and `b` have happened. -/
def mailBoth : Registration where
  builder := (TriggerBuilder.onEvent {} "a").onEvent "b"
  targetTaskId := ⟨.rust, "mail", "send"⟩

/-- A mail for one event, whose code looks like the end of one id and the start of another. -/
def mailOdd : Registration where
  builder := TriggerBuilder.onEvent {} "a#static_no_args,event#b"
  targetTaskId := ⟨.rust, "mail", "send"⟩

theorem trigger_ids_exact_mail :
    (∀ d ∈ definitions sampleCodec [mailBoth, mailPaid 1],
      ∀ d' ∈ definitions sampleCodec [mailBoth, mailPaid 1],
      (d.triggerId = d'.triggerId ↔ SameTrigger d d')) ∧
    ∀ d ∈ definitions sampleCodec [mailBoth, mailPaid 1], ∃ kept,
      (registerAll sampleCodec [mailBoth, mailPaid 1]).triggers.lookup d.triggerId = some kept ∧
      (definitions sampleCodec [mailBoth, mailPaid 1]).reverse.find?
        (fun d' => SameTrigger d' d) = some kept ∧
      ∀ condId ∈ d.conditionIds, kept ∈
        (registerAll sampleCodec [mailBoth, mailPaid 1]).getTriggersForCondition condId := by
  apply trigger_ids_exact sampleCodec_sound
  intro r hr
  have hvalid : TaskId.Valid ⟨.rust, "mail", "send"⟩ := by decide
  rw [List.mem_cons, List.mem_singleton] at hr
  rcases hr with rfl | rfl
  · exact ⟨hvalid, by decide, by decide +kernel⟩
  · exact ⟨hvalid, by decide, by decide +kernel⟩

/-- Two triggers that pass on different arguments have one id, and the second registration
replaces the first.  So do a trigger on two events and a trigger on one event with an odd
code. -/
theorem trigger_ids_collide :
    (∃ d d', (mailPaid 1).build sampleCodec = .ok d ∧ (mailPaid 2).build sampleCodec = .ok d' ∧
      d.triggerId = d'.triggerId ∧ d.argumentTemplate ≠ d'.argumentTemplate ∧
      (registerAll sampleCodec [mailPaid 1, mailPaid 2]).triggers.lookup d.triggerId = some d') ∧
    ∃ d d', mailBoth.build sampleCodec = .ok d ∧ mailOdd.build sampleCodec = .ok d' ∧
      d.triggerId = d'.triggerId ∧ ¬ d.conditionIds.Perm d'.conditionIds ∧
      (registerAll sampleCodec [mailBoth, mailOdd]).triggers.lookup d.triggerId = some d' := by
  -- the texts under the digest agree, whatever the digest
  have hids : (sortTexts ((mailBoth.builder.conditions.map
        (TriggerCondition.conditionId sampleCodec)).map ConditionId.raw)).flatMap
          (fun id => id ++ [',']) =
      (sortTexts ((mailOdd.builder.conditions.map
        (TriggerCondition.conditionId sampleCodec)).map ConditionId.raw)).flatMap
          (fun id => id ++ [',']) := by
    decide
  have hodd : computeTriggerId sampleCodec mailBoth.targetTaskId
        (mailBoth.builder.conditions.map (TriggerCondition.conditionId sampleCodec))
        mailBoth.builder.logic =
      computeTriggerId sampleCodec mailOdd.targetTaskId
        (mailOdd.builder.conditions.map (TriggerCondition.conditionId sampleCodec))
        mailOdd.builder.logic := by
    simp only [computeTriggerId, hids]
    rfl
  have hlast := @lookup_last sampleCodec [mailBoth] mailOdd _ rfl
  refine ⟨⟨_, _, rfl, rfl, rfl, by decide, ?_⟩, ⟨_, _, rfl, rfl, hodd, by decide, ?_⟩⟩
  · exact @lookup_last sampleCodec [mailPaid 1] (mailPaid 2) _ rfl
  · dsimp only
    rw [hodd]
    exact hlast

end Rustvello.Mem
