import Rustvello.Concurrency.History
import Rustvello.Mem.TriggerStore
import Rustvello.Proto.ConditionIdentity

/-!
# Cron slots

Evaluators read the last execution of a cron condition, test interval, slot and grace
against their own clock, and store the evaluation time if nobody stored another one
meanwhile.  Over all interleavings, with any clocks:

* `Due` — what an evaluator has tested before its compare-and-set;
* `firings` — the accepted evaluation times of a condition, in the order of their
  compare-and-sets;
* `cronDiscipline` — a firing is recorded before the next one, and nothing else is;
* `Spaced` — slots and times increase and keep the interval;
* `cron_slots_fire_once` — every run that fires no slot in the fraction of a second after
  its grace period;
* `late_slot_fires` — a slot that is half a second too old fires.
-/

namespace Rustvello.Mem

open Concurrency Proto Rustvello.Core

/-! ## Firings -/

/-- The time that an event stored for a condition. -/
def firing? (condId : ConditionId) : Event triggerStore → Option Timestamp
  | ⟨.storeCronExecution id time _, claimed⟩ => if claimed ∧ id = condId then some time else none
  | _ => none

/-- The accepted evaluation times of a condition, newest first. -/
def firings (condId : ConditionId) (history : List (Event triggerStore)) : List Timestamp :=
  history.filterMap (firing? condId)

/-- The valid condition of an accepted firing. -/
def firedBy? (codec : Codec) : Event triggerStore → Option ValidCondition
  | ⟨.storeCronExecution id time last, claimed⟩ =>
      if claimed then some (ValidCondition.new codec id (.cron ⟨time, last⟩)) else none
  | _ => none

section Cron

variable (croner : Croner) (codec : Codec) (conditions : HashMap ConditionId TriggerCondition)

/-- The condition is due at `time` after `last`, a time that a clock can show. -/
def Due (condId : ConditionId) (time : Timestamp) (last : Option Timestamp) : Prop :=
  (minUtc ≤ time ∧ time ≤ maxUtc) ∧ ∃ cron schedule,
    conditions.lookup condId = some (.cron cron) ∧
      croner.fromStr cron.cronExpression = some schedule ∧
      intervalOk time last cron.minIntervalSeconds = true ∧
      cronSlotDue croner schedule time last = some true

/-! ## What an evaluation keeps to -/

/-- Accepted firings and recorded conditions of one operation, newest first. -/
structure CronBook where
  isCron : Bool
  fired : List ValidCondition := []
  recorded : List ValidCondition := []

/-- A firing is recorded before the next one is attempted. -/
def cronDiscipline : Discipline triggerStore TriggerTask CronBook where
  start task := { isCron := decide (task = .cron) }
  next c r g := { g with
    fired := (firedBy? codec ⟨c, r⟩).toList ++ g.fired
    recorded := (recordedBy? ⟨c, r⟩).toList ++ g.recorded }
  pre
    | .storeCronExecution id time last, g =>
        g.isCron = true ∧ g.fired = g.recorded ∧ Due croner conditions id time last
    | .recordValidCondition vc, g => g.isCron = true → g.fired = vc :: g.recorded
    | _, _ => True
  resp
    | .getCronConditions, _, found => ∀ entry ∈ found, conditions.lookup entry.1 = some entry.2
    | _, _, _ => True

/-- Every firing of the operation is recorded. -/
def CronBook.Settled (g : CronBook) : Prop :=
  g.isCron = true → g.fired = g.recorded

/-- At most the last firing is not recorded yet. -/
def CronBook.Owes (g : CronBook) : Prop :=
  g.isCron = true → g.fired = g.recorded ∨ ∃ vc, g.fired = vc :: g.recorded

variable {croner codec conditions}

/-- Operations that store no cron execution are no cron evaluations. -/
theorem obeys_of_uses {p : Manager Unit} {task : TriggerTask} (htask : task ≠ .cron)
    (hp : p.Uses (fun _ _ => True) fun c : TriggerCall =>
      ∀ id time last, c ≠ .storeCronExecution id time last) :
    (cronDiscipline croner codec conditions).Obeys p (fun _ => CronBook.Settled)
      ((cronDiscipline croner codec conditions).start task) := by
  have hkeeps : p.Uses (cronDiscipline croner codec conditions).Answers
      ((cronDiscipline croner codec conditions).Keeps fun g => g.isCron = false) := by
    refine hp.mono (fun _ _ _ => trivial) fun c hc g hg => ?_
    have hpre : (cronDiscipline croner codec conditions).pre c g := by
      cases c
      case storeCronExecution id time last => exact absurd rfl (hc id time last)
      case recordValidCondition vc => exact fun h => absurd h (by simp [hg])
      all_goals trivial
    exact ⟨hpre, fun r _ => hg⟩
  refine (Discipline.Obeys.of_keeps hkeeps (by simp [cronDiscipline, htask])).mono ?_
  intro _ g hg h
  simp [hg] at h

/-- One condition: at most one firing, recorded at once. -/
theorem evaluateCronCondition_obeys {condId : ConditionId} {cond : TriggerCondition}
    {now : DateTime} {g : CronBook} (hcron : g.isCron = true) (hsettled : g.fired = g.recorded)
    (hfound : conditions.lookup condId = some cond) :
    (cronDiscipline croner codec conditions).Obeys
      (evaluateCronCondition croner codec now.instant condId cond)
      (fun _ g => g.isCron = true ∧ g.fired = g.recorded) g := by
  cases cond with
  | cron cron =>
      simp only [evaluateCronCondition]
      split
      · exact ⟨hcron, hsettled⟩
      · rename_i schedule hschedule
        refine ⟨trivial, fun lastExec _ => ?_⟩
        show Discipline.Obeys _ (ite _ _ _) _ _
        split
        · rename_i hinterval
          split
          · rename_i hdue
            refine ⟨⟨hcron, hsettled, ⟨now.lower, now.upper⟩, cron, schedule, hfound, hschedule,
              hinterval, hdue⟩, fun claimed _ => ?_⟩
            -- a lost race ends here; a won one owes its record
            cases claimed with
            | false => exact ⟨hcron, hsettled⟩
            | true =>
                let vc := ValidCondition.new codec condId (.cron ⟨now.instant, lastExec⟩)
                have howed : vc :: g.fired = vc :: g.recorded := by rw [hsettled]
                exact ⟨fun _ => howed, fun _ _ => ⟨hcron, howed⟩⟩
          · exact ⟨hcron, hsettled⟩
        · exact ⟨hcron, hsettled⟩
  | _ => exact ⟨hcron, hsettled⟩

theorem evaluateCrons_obeys {now : DateTime} (found : List (ConditionId × TriggerCondition))
    (hfound : ∀ entry ∈ found, conditions.lookup entry.1 = some entry.2) {g : CronBook}
    (hcron : g.isCron = true) (hsettled : g.fired = g.recorded) :
    (cronDiscipline croner codec conditions).Obeys (evaluateCrons croner codec now.instant found)
      (fun _ g => g.isCron = true ∧ g.fired = g.recorded) g := by
  induction found generalizing g with
  | nil => exact ⟨hcron, hsettled⟩
  | cons entry rest ih =>
      obtain ⟨condId, cond⟩ := entry
      rw [List.forall_mem_cons] at hfound
      refine (evaluateCronCondition_obeys hcron hsettled hfound.1).bind ?_
      rintro vc g' ⟨hcron', hsettled'⟩
      refine (ih hfound.2 hcron' hsettled').bind ?_
      intro others g'' h
      exact h

/-- Every operation keeps to the discipline. -/
theorem program_obeys_cron (task : TriggerTask) :
    (cronDiscipline croner codec conditions).Obeys (task.program croner codec)
      (fun _ => CronBook.Settled) ((cronDiscipline croner codec conditions).start task) := by
  cases task with
  | cron =>
      apply Discipline.Obeys.toUnit
      refine ⟨trivial, fun found hfound => ⟨trivial, fun now _ => ?_⟩⟩
      have hcrons := @evaluateCrons_obeys croner codec conditions now found hfound
        { isCron := true } rfl rfl
      apply hcrons.mono
      rintro _ g ⟨_, hsettled⟩ _
      exact hsettled
  | statusChange ctx | result ctx | failure ctx =>
      refine obeys_of_uses (by simp) (Prog.uses_bind ?_ fun _ => trivial)
      exact uses_evaluateTaskConditions codec (by simp) (by simp) _ _
  | event eventCode payload =>
      refine obeys_of_uses (by simp) (Prog.uses_bind ?_ fun _ => trivial)
      exact uses_emitEvent codec (by simp) (by simp) (by simp) (by simp) (by simp) _ _
  | evaluate =>
      refine obeys_of_uses (by simp) (Prog.uses_bind ?_ fun _ => trivial)
      exact uses_evaluateTriggerRuns codec (by simp) (by simp) (by simp) (by simp) (by simp)

end Cron

/-! ## The order of firings -/

/-- The grace period in nanoseconds. -/
def graceNanoseconds : Timestamp :=
  cronMissedSlotGraceSeconds * 1000000000

theorem numSeconds_of_nonneg {delta : Int} (h : 0 ≤ delta) :
    numSeconds delta = delta / 1000000000 :=
  Int.tdiv_eq_ediv_of_nonneg h

theorem numSeconds_mono {a b : Int} (ha : 0 ≤ a) (hab : a ≤ b) : numSeconds a ≤ numSeconds b := by
  rw [numSeconds_of_nonneg ha, numSeconds_of_nonneg (by omega)]
  omega

theorem lt_late_of_seconds_le {delta : Int} (h : delta / 1000000000 ≤ cronMissedSlotGraceSeconds) :
    delta < graceNanoseconds + 1000000000 := by
  have hseconds : delta / 1000000000 ≤ 120 := h
  show delta < 120 * 1000000000 + 1000000000
  omega

/-- Times that clocks show are too close to each other for the interval to be cut. -/
theorem interval_of_intervalOk {time last : Int} {minIntervalSeconds : Nat}
    (hupper : time ≤ maxUtc) (hlower : minUtc ≤ last) (hlt : last < time)
    (h : intervalOk time (some last) minIntervalSeconds = true) :
    (minIntervalSeconds : Int) ≤ numSeconds (time - last) := by
  have hmin : min (minIntervalSeconds : Int) maxI64 ≤ numSeconds (time - last) := by
    simpa [intervalOk] using h
  have hcut : numSeconds (time - last) < maxI64 := by
    have hupper' : time ≤ 8210266876799999999999 := hupper
    have hlower' : -8334601315200000000000 ≤ last := hlower
    rw [numSeconds_of_nonneg (by omega)]
    unfold maxI64
    omega
  omega

section Spacing

variable (croner : Croner) (schedule : croner.Schedule) (minIntervalSeconds : Nat)

/-- Two firings of one condition. -/
def FiresBefore (earlier later : Timestamp) : Prop :=
  earlier < later ∧ (minIntervalSeconds : Int) ≤ numSeconds (later - earlier) ∧
    ∀ slot ∈ croner.findPreviousOccurrence schedule earlier,
      ∀ slot' ∈ croner.findPreviousOccurrence schedule later, slot < slot'

/-- The slot of a firing is not older than the grace period. -/
def InGrace (time : Timestamp) : Prop :=
  ∃ slot, croner.findPreviousOccurrence schedule time = some slot ∧ slot ≤ time ∧
    time - slot ≤ graceNanoseconds

/-- The firings of one condition, newest first. -/
structure Spaced (times : List Timestamp) : Prop where
  order : times.Pairwise fun later earlier =>
    FiresBefore croner schedule minIntervalSeconds earlier later
  grace : ∀ time ∈ times, InGrace croner schedule time

variable {croner schedule minIntervalSeconds}

theorem FiresBefore.trans {a b c : Int} (hab : FiresBefore croner schedule minIntervalSeconds a b)
    (hbc : FiresBefore croner schedule minIntervalSeconds b c) (hb : InGrace croner schedule b) :
    FiresBefore croner schedule minIntervalSeconds a c := by
  obtain ⟨hlt, hinterval, hslots⟩ := hab
  obtain ⟨hlt', _, hslots'⟩ := hbc
  obtain ⟨slotB, hslotB, _, _⟩ := hb
  have hle : b - a ≤ c - a := sub_le_sub_right hlt'.le a
  refine ⟨hlt.trans hlt', hinterval.trans (numSeconds_mono (sub_nonneg.mpr hlt.le) hle), ?_⟩
  intro slot hslot slot' hslot'
  exact (hslots slot hslot slotB hslotB).trans (hslots' slotB hslotB slot' hslot')

/-- A firing after the latest one comes after all of them. -/
theorem Spaced.cons {times : List Timestamp} {time : Timestamp}
    (h : Spaced croner schedule minIntervalSeconds times) (hgrace : InGrace croner schedule time)
    (hlast : ∀ last ∈ times.head?, FiresBefore croner schedule minIntervalSeconds last time) :
    Spaced croner schedule minIntervalSeconds (time :: times) := by
  constructor
  · refine List.pairwise_cons.mpr ⟨?_, h.order⟩
    intro earlier hearlier
    cases times with
    | nil => simp at hearlier
    | cons last rest =>
        have hnext := hlast last rfl
        rcases List.mem_cons.mp hearlier with rfl | hrest
        · exact hnext
        · have hbefore := List.rel_of_pairwise_cons h.order hrest
          exact hbefore.trans hnext (h.grace last List.mem_cons_self)
  · exact List.forall_mem_cons.mpr ⟨hgrace, h.grace⟩

/-- What the evaluator tested, read back. -/
theorem firesBefore_of_due (hcroner : ∀ schedule time slot,
      croner.findPreviousOccurrence schedule time = some slot → slot ≤ time)
    {time last slot : Timestamp} (hslot : croner.findPreviousOccurrence schedule time = some slot)
    (hupper : time ≤ maxUtc) (hlower : minUtc ≤ last)
    (hinterval : intervalOk time (some last) minIntervalSeconds = true) (hlast : last < slot) :
    FiresBefore croner schedule minIntervalSeconds last time := by
  have hlt : last < time := hlast.trans_le (hcroner schedule time slot hslot)
  refine ⟨hlt, interval_of_intervalOk hupper hlower hlt hinterval, ?_⟩
  intro slotLast hslotLast slot' hslot'
  obtain rfl : slot = slot' := Option.some.inj (hslot.symm.trans hslot')
  exact (hcroner schedule last slotLast hslotLast).trans_lt hlast

end Spacing

/-! ## Runs -/

section Runs

variable (croner : Croner) {shared shared' : MemTriggerStore × List (Event triggerStore)}
  {books books' : List CronBook}

/-- The slot of the condition at this time is older than the grace period, and not yet by
a whole second. -/
def inLateSecond (conditions : HashMap ConditionId TriggerCondition) (condId : ConditionId)
    (time : Timestamp) : Bool :=
  match conditions.lookup condId with
  | some (.cron cron) =>
      ((croner.fromStr cron.cronExpression).bind fun schedule =>
        croner.findPreviousOccurrence schedule time).any fun slot =>
          decide (graceNanoseconds < time - slot ∧ time - slot < graceNanoseconds + 1000000000)
  | _ => false

/-- No compare-and-set is made in the first second after the grace period of its slot. -/
def outsideLateSecond :
    Guard triggerStore (MemTriggerStore × List (Event triggerStore)) TriggerTask where
  start _ _ := True
  call s _ c := match c with
    | .storeCronExecution condId time _ => inLateSecond croner s.shared.1.conditions condId time = false
    | _ => True

instance (s : System triggerStore (MemTriggerStore × List (Event triggerStore)) TriggerTask)
    (task : TriggerTask) : Decidable ((outsideLateSecond croner).start s task) :=
  inferInstanceAs (Decidable True)

instance (s : System triggerStore (MemTriggerStore × List (Event triggerStore)) TriggerTask)
    (i : Nat) (c : TriggerCall) : Decidable ((outsideLateSecond croner).call s i c) :=
  match c with
  | .storeCronExecution condId time _ =>
      inferInstanceAs (Decidable (inLateSecond croner s.shared.1.conditions condId time = false))
  | .getConditionsForTask _ | .getCronConditions | .getEventConditions _
  | .getTriggersForCondition _ | .recordValidCondition _ | .getValidConditions
  | .getLastCronExecution _ | .storeEvent _ | .claimTriggerRunsWithRecords _ _ | .utcNow
  | .newEventId | .keyOrder _ => inferInstanceAs (Decidable True)

variable (codec : Codec) (init : MemTriggerStore)

/-- What holds between the store, the history and the books of the evaluators. -/
structure CronInv (shared : MemTriggerStore × List (Event triggerStore)) (books : List CronBook) :
    Prop where
  conditions : shared.1.conditions = init.conditions
  latest : ∀ condId, shared.1.cronExecutions.lookup condId = (firings condId shared.2).head?
  clocks : ∀ condId, ∀ time ∈ firings condId shared.2, minUtc ≤ time
  spaced : ∀ condId cron schedule, init.conditions.lookup condId = some (.cron cron) →
    croner.fromStr cron.cronExpression = some schedule →
      Spaced croner schedule cron.minIntervalSeconds (firings condId shared.2)
  owes : ∀ g ∈ books, g.Owes ∧ (g.isCron = false → g.fired = [])

variable {croner codec init}

/-- Calls that store no cron execution leave times and history of firings alone. -/
theorem CronInv.of_quiet (h : CronInv croner init shared books)
    (hconditions : shared'.1.conditions = shared.1.conditions)
    (hexecutions : shared'.1.cronExecutions = shared.1.cronExecutions)
    (hfirings : ∀ condId, firings condId shared'.2 = firings condId shared.2)
    (howes : ∀ g ∈ books', g.Owes ∧ (g.isCron = false → g.fired = [])) :
    CronInv croner init shared' books' where
  conditions := hconditions.trans h.conditions
  latest condId := by rw [hexecutions, hfirings]; exact h.latest condId
  clocks condId := by rw [hfirings]; exact h.clocks condId
  spaced condId cron schedule := by rw [hfirings]; exact h.spaced condId cron schedule
  owes := howes

/-- An accepted firing is due after the latest one. -/
theorem CronInv.fire (hcroner : ∀ schedule time slot,
      croner.findPreviousOccurrence schedule time = some slot → slot ≤ time)
    (h : CronInv croner init shared books) {condId : ConditionId} {time : Timestamp}
    {last : Option Timestamp} (hdue : Due croner init.conditions condId time last)
    (hgrace : inLateSecond croner shared.1.conditions condId time = false)
    (hlast : shared.1.cronExecutions.lookup condId = last)
    (hconditions : shared'.1.conditions = shared.1.conditions)
    (hexecutions : shared'.1.cronExecutions = shared.1.cronExecutions.insert condId time)
    (hfirings : ∀ id, firings id shared'.2 =
      if id = condId then time :: firings id shared.2 else firings id shared.2)
    (howes : ∀ g ∈ books', g.Owes ∧ (g.isCron = false → g.fired = [])) :
    CronInv croner init shared' books' := by
  obtain ⟨⟨hlower, hupper⟩, cron, schedule, hcron, hschedule, hinterval, hslotDue⟩ := hdue
  refine ⟨hconditions.trans h.conditions, ?_, ?_, ?_, howes⟩
  · intro id
    rw [hexecutions, hfirings]
    by_cases hid : id = condId
    · subst hid
      rw [if_pos rfl, AList.lookup_insert]
      rfl
    · rw [if_neg hid, AList.lookup_insert_ne hid]
      exact h.latest id
  · intro id
    rw [hfirings]
    split
    · exact List.forall_mem_cons.mpr ⟨hlower, h.clocks id⟩
    · exact h.clocks id
  · intro id cron' schedule' hcron' hschedule'
    rw [hfirings]
    split
    · rename_i hid
      subst hid
      obtain rfl : cron = cron' := by
        simpa using hcron.symm.trans hcron'
      obtain rfl : schedule = schedule' := Option.some.inj (hschedule.symm.trans hschedule')
      -- the slot that was tested
      obtain ⟨slot, hslot, htest⟩ := Option.map_eq_some_iff.mp hslotDue
      split at htest
      · cases htest
      · rename_i hfresh
        have hle := hcroner schedule time slot hslot
        have hin : InGrace croner schedule time := by
          refine ⟨slot, hslot, hle, ?_⟩
          rw [h.conditions, inLateSecond, hcron] at hgrace
          simp only [hschedule, Option.bind_some, hslot, Option.any_some,
            decide_eq_false_iff_not] at hgrace
          have hdelta : (0 : Int) ≤ time - slot := sub_nonneg.mpr hle
          rw [numSeconds_of_nonneg hdelta] at hfresh
          by_contra hlate
          refine hgrace ⟨lt_of_not_ge hlate, ?_⟩
          exact lt_late_of_seconds_le (not_lt.mp hfresh)
        refine (h.spaced id cron schedule hcron hschedule).cons hin ?_
        intro previous hprevious
        rw [← h.latest id, hlast] at hprevious
        obtain rfl := hprevious
        have hmem : previous ∈ firings id shared.2 :=
          List.mem_of_mem_head? (by rw [← h.latest id, hlast]; rfl)
        have hlt : previous < slot := by simpa using htest
        exact firesBefore_of_due hcroner hslot hupper (h.clocks id previous hmem) hinterval hlt
    · exact h.spaced id cron' schedule' hcron' hschedule'

/-- Every call but one leaves cron conditions and executions alone. -/
theorem exec_quiet (env : TriggerEnv) {c : TriggerCall}
    (hc : ∀ id time last, c ≠ .storeCronExecution id time last) (s : MemTriggerStore) :
    (MemTriggerStore.exec env c s).2.conditions = s.conditions ∧
      (MemTriggerStore.exec env c s).2.cronExecutions = s.cronExecutions ∧
      ∀ condId r, firing? condId ⟨c, r⟩ = none := by
  cases c
  case storeCronExecution id time last => exact absurd rfl (hc id time last)
  case claimTriggerRunsWithRecords records consumed =>
    obtain ⟨claims, runs, heq⟩ := MemTriggerStore.claimRuns_eq env.clock.instant records s
    simp only [MemTriggerStore.exec, MemTriggerStore.claimTriggerRunsWithRecords,
      MemTriggerStore.consume, heq]
    exact ⟨trivial, trivial, fun _ _ => rfl⟩
  all_goals exact ⟨rfl, rfl, fun _ _ => rfl⟩

/-- Answering the evaluators keeps the invariant. -/
theorem cronInv_call (hcroner : ∀ schedule time slot,
      croner.findPreviousOccurrence schedule time = some slot → slot ≤ time)
    {store : MemTriggerStore} {history : List (Event triggerStore)} (env : TriggerEnv)
    {c : TriggerCall} {g : CronBook} {before after : List CronBook}
    (hallowed : ∀ condId time last, c = .storeCronExecution condId time last →
      inLateSecond croner store.conditions condId time = false)
    (hpre : (cronDiscipline croner codec init.conditions).pre c g)
    (h : CronInv croner init (store, history) (before ++ g :: after)) :
    (cronDiscipline croner codec init.conditions).resp c g (MemTriggerStore.exec env c store).1 ∧
      CronInv croner init
        ((MemTriggerStore.exec env c store).2,
          ⟨c, (MemTriggerStore.exec env c store).1⟩ :: history)
        (before ++ (cronDiscipline croner codec init.conditions).next c
          (MemTriggerStore.exec env c store).1 g :: after) := by
  have hothers : ∀ g' : CronBook, (g'.Owes ∧ (g'.isCron = false → g'.fired = [])) →
      ∀ x ∈ before ++ g' :: after, x.Owes ∧ (x.isCron = false → x.fired = []) := by
    intro g' hg' x hx
    rcases List.mem_append.mp hx with hx | hx
    · exact h.owes x (List.mem_append_left _ hx)
    · rcases List.mem_cons.mp hx with rfl | hx
      · exact hg'
      · exact h.owes x (List.mem_append_right _ (List.mem_cons_of_mem _ hx))
  have hg := h.owes g (by simp)
  by_cases hstore : ∃ id time last, c = .storeCronExecution id time last
  · obtain ⟨id, time, last, rfl⟩ := hstore
    obtain ⟨hcron, hsettled, hdue⟩ := hpre
    refine ⟨trivial, ?_⟩
    simp only [MemTriggerStore.exec, MemTriggerStore.storeCronExecution]
    split
    · rename_i hlast
      refine h.fire hcroner hdue (hallowed id time last rfl) hlast rfl rfl ?_ (hothers _ ⟨?_, ?_⟩)
      · intro condId
        by_cases hid : condId = id
        · subst hid
          simp [firings, firing?]
        · simp [firings, firing?, hid, Ne.symm hid]
      · intro _
        exact .inr ⟨_, congrArg _ hsettled⟩
      · intro hfalse
        exact absurd (hcron.symm.trans hfalse) (by decide)
    · refine h.of_quiet rfl rfl ?_ (hothers _ hg)
      intro condId
      simp [firings, firing?]
  · have hquiet := exec_quiet env (c := c) (fun id time last heq => hstore ⟨id, time, last, heq⟩)
      store
    obtain ⟨hconditions, hexecutions, hfiring⟩ := hquiet
    have hfirings : ∀ condId, firings condId
        (⟨c, (MemTriggerStore.exec env c store).1⟩ :: history) = firings condId history := by
      intro condId
      rw [firings, List.filterMap_cons, hfiring]
      rfl
    cases c
    case storeCronExecution id time last => exact absurd ⟨id, time, last, rfl⟩ hstore
    case getCronConditions =>
      refine ⟨?_, h.of_quiet hconditions hexecutions hfirings (hothers _ hg)⟩
      intro entry hentry
      obtain ⟨condId, _, hfound⟩ := List.mem_filterMap.mp hentry
      obtain ⟨cond, hcond, rfl⟩ := Option.map_eq_some_iff.mp hfound
      rw [h.conditions] at hcond
      exact hcond
    case recordValidCondition vc =>
      refine ⟨trivial, h.of_quiet hconditions hexecutions hfirings (hothers _ ⟨?_, hg.2⟩)⟩
      intro hcron
      exact .inl (hpre hcron)
    all_goals
      exact ⟨trivial, h.of_quiet hconditions hexecutions hfirings (hothers _ hg)⟩

theorem cronUpheld (hcroner : ∀ schedule time slot,
      croner.findPreviousOccurrence schedule time = some slot → slot ≤ time)
    (hinit : init.cronExecutions = ∅) :
    (cronDiscipline croner codec init.conditions).Upheld CronBook.Settled (CronInv croner init)
      (triggerMachine croner codec).recorded (outsideLateSecond croner) ⟨(init, []), []⟩ where
  program _ task _ := program_obeys_cron task
  obey _ ht := absurd ht (by simp)
  logs _ ht := absurd ht (by simp)
  holds :=
    { conditions := rfl
      latest := fun condId => by simp [hinit, firings]
      clocks := fun condId => by simp [firings]
      spaced := fun condId cron schedule _ _ => ⟨by simp [firings], by simp [firings]⟩
      owes := fun _ hg => absurd hg (by simp [System.books]) }
  start s task _ h := by
    refine h.of_quiet rfl rfl (fun _ => rfl) fun g hg => ?_
    rcases List.mem_append.mp hg with hg | hg
    · exact h.owes g hg
    · obtain rfl := List.mem_singleton.mp hg
      exact ⟨fun _ => .inl rfl, fun _ => rfl⟩
  call s i env t c before after hturn h := by
    refine cronInv_call hcroner env ?_ hturn.permitted h
    rintro condId time last rfl
    exact hturn.allowed

/-- The book of an operation, read off its log. -/
theorem cronBook_eq (t : Thread triggerStore TriggerTask) :
    ((cronDiscipline croner codec init.conditions).book t).isCron = decide (t.task = .cron) ∧
      ((cronDiscipline croner codec init.conditions).book t).fired =
        t.log.filterMap (firedBy? codec) ∧
      ((cronDiscipline croner codec init.conditions).book t).recorded =
        t.log.filterMap recordedBy? := by
  obtain ⟨task, prog, log⟩ := t
  induction log with
  | nil => exact ⟨rfl, rfl, rfl⟩
  | cons e log ih =>
      obtain ⟨hcron, hfired, hrecorded⟩ := ih
      refine ⟨hcron, ?_, ?_⟩
      · show (firedBy? codec e).toList ++ _ = _
        rw [List.filterMap_cons]
        cases firedBy? codec e <;> simp [← hfired] <;> rfl
      · show (recordedBy? e).toList ++ _ = _
        rw [List.filterMap_cons]
        cases recordedBy? e <;> simp [← hrecorded] <;> rfl

/-- **Cron slots.**  In every state of every run over a store with arbitrary conditions
that fires no slot in the late second: the firings of a condition have increasing slots and
times, keep its interval and are in grace; every firing is one of a cron evaluation; and an
evaluation has recorded one valid condition for each of its firings, except at most the
last one while it runs. -/
theorem cron_slots_fire_once (hcroner : ∀ schedule time slot,
      croner.findPreviousOccurrence schedule time = some slot → slot ≤ time)
    (conditions : List TriggerCondition)
    {s : System triggerStore (MemTriggerStore × List (Event triggerStore)) TriggerTask}
    (hreach : Reachable (triggerMachine croner codec).recorded (outsideLateSecond croner)
      ⟨(MemTriggerStore.registered codec conditions, []), []⟩ s) :
    (∀ condId cron schedule,
      (MemTriggerStore.registered codec conditions).conditions.lookup condId =
        some (.cron cron) → croner.fromStr cron.cronExpression = some schedule →
      Spaced croner schedule cron.minIntervalSeconds (firings condId s.shared.2)) ∧
    (∀ e ∈ s.shared.2, ∀ vc ∈ firedBy? codec e,
      ∃ t ∈ s.threads, t.task = .cron ∧ vc ∈ t.log.filterMap (firedBy? codec)) ∧
    ∀ t ∈ s.threads, t.task = .cron →
      (t.log.filterMap (firedBy? codec) = t.log.filterMap recordedBy? ∨
        t.next? ≠ none ∧ ∃ vc, t.log.filterMap (firedBy? codec) =
          vc :: t.log.filterMap recordedBy?) := by
  have hup := @cronUpheld croner codec (MemTriggerStore.registered codec conditions) hcroner
    (MemTriggerStore.registered_idle codec conditions).2.1
  obtain ⟨hobey, hinv⟩ := hup.obeyed hreach
  have hbook : ∀ t ∈ s.threads, (cronDiscipline croner codec
      (MemTriggerStore.registered codec conditions).conditions).book t ∈
        s.books (cronDiscipline croner codec
          (MemTriggerStore.registered codec conditions).conditions).toMonitor :=
    fun t ht => List.mem_map_of_mem ht
  refine ⟨fun condId cron schedule hcron hschedule => hinv.spaced condId cron schedule hcron
    hschedule, ?_, ?_⟩
  · intro e he vc hvc
    obtain ⟨t, ht, hlog⟩ := Reachable.mem_log rfl hreach e he
    have hmem : vc ∈ t.log.filterMap (firedBy? codec) := List.mem_filterMap.mpr ⟨e, hlog, hvc⟩
    refine ⟨t, ht, ?_, hmem⟩
    obtain ⟨hcron, hfired, _⟩ := @cronBook_eq croner codec
      (MemTriggerStore.registered codec conditions) t
    by_contra htask
    have hempty := (hinv.owes _ (hbook t ht)).2 (by simpa [hcron] using htask)
    rw [hfired] at hempty
    rw [hempty] at hmem
    cases hmem
  · intro t ht htask
    obtain ⟨hcron, hfired, hrecorded⟩ := @cronBook_eq croner codec
      (MemTriggerStore.registered codec conditions) t
    rw [← hfired, ← hrecorded]
    have hisCron : ((cronDiscipline croner codec
        (MemTriggerStore.registered codec conditions).conditions).book t).isCron = true := by
      simp [hcron, htask]
    rcases (hinv.owes _ (hbook t ht)).1 hisCron with hsettled | howed
    · exact .inl hsettled
    · cases hprog : t.prog with
      | done _ =>
          -- a finished evaluation owes nothing
          have hend := hobey t ht
          rw [hprog] at hend
          exact .inl (hend hisCron)
      | call c k => exact .inr ⟨by simp [Thread.next?, hprog], howed⟩

end Runs

/-! ## A schedule to compute with -/

/-- The schedule of New Year's midnight, in the first year of the epoch. -/
def newYearCroner : Croner where
  Schedule := Unit
  fromStr text := if text = "0 0 1 1 *" then some () else none
  findPreviousOccurrence _ time :=
    if 0 ≤ time ∧ time < 31536000000000000 then some 0 else none

theorem newYearCroner_le (schedule : Unit) (time slot : Timestamp)
    (h : newYearCroner.findPreviousOccurrence schedule time = some slot) : slot ≤ time := by
  simp only [newYearCroner] at h
  split at h
  · rename_i hrange
    obtain rfl : 0 = slot := Option.some.inj h
    exact hrange.1
  · cases h

def newYear : TriggerCondition :=
  .cron ⟨"0 0 1 1 *", 50⟩

def newYearInit : System triggerStore (MemTriggerStore × List (Event triggerStore)) TriggerTask :=
  ⟨(MemTriggerStore.registered sampleCodec [newYear], []), []⟩

/-- One evaluation, at some nanoseconds after midnight. -/
def evaluationAt (clock : DateTime) : List (Label TriggerEnv TriggerTask) :=
  .start .cron :: Label.steps 0 5 { clock := clock }

/-- An evaluation a minute after midnight fires the slot and records it. -/
theorem cron_slots_fire_once_newYear :
    ∃ s, Reachable (triggerMachine newYearCroner sampleCodec).recorded
        (outsideLateSecond newYearCroner) newYearInit s ∧
      firings (newYear.conditionId sampleCodec) s.shared.2 = [60000000000] ∧
      Spaced newYearCroner () 50 (firings (newYear.conditionId sampleCodec) s.shared.2) := by
  obtain ⟨s, hreach, hfirings⟩ := Reachable.exists_of_run
    (triggerMachine newYearCroner sampleCodec).recorded (outsideLateSecond newYearCroner)
    newYearInit (evaluationAt ⟨60000000000, by decide, by decide⟩)
    (fun s => firings (newYear.conditionId sampleCodec) s.shared.2 = [60000000000])
    (by decide +kernel) (by decide +kernel)
  have hsafe := cron_slots_fire_once newYearCroner_le [newYear] hreach
  exact ⟨s, hreach, hfirings, hsafe.1 _ ⟨"0 0 1 1 *", 50⟩ () (AList.lookup_insert _) rfl⟩

/-- An evaluation half a second after the grace period fires the slot too. -/
theorem late_slot_fires :
    ∃ s, Reachable (triggerMachine newYearCroner sampleCodec).recorded
        (Guard.top triggerStore (MemTriggerStore × List (Event triggerStore)) TriggerTask)
        newYearInit s ∧
      firings (newYear.conditionId sampleCodec) s.shared.2 = [120500000000] ∧
      newYearCroner.findPreviousOccurrence () 120500000000 = some 0 ∧
      ¬ ((120500000000 : Timestamp) - 0 ≤ graceNanoseconds) := by
  obtain ⟨s, hreach, hfirings⟩ := Reachable.exists_of_run
    (triggerMachine newYearCroner sampleCodec).recorded
    (Guard.top triggerStore (MemTriggerStore × List (Event triggerStore)) TriggerTask)
    newYearInit (evaluationAt ⟨120500000000, by decide, by decide⟩)
    (fun s => firings (newYear.conditionId sampleCodec) s.shared.2 = [120500000000])
    (Guard.allowsAll_top _ _ _) (by decide +kernel)
  exact ⟨s, hreach, hfirings, rfl, by decide⟩

end Rustvello.Mem
