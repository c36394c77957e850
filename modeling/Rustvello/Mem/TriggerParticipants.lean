import Rustvello.Mem.TriggerRuns

/-!
# Who takes part in an AND run

An AND run takes one valid condition for every condition of its trigger and consumes all
of them.  Only the run id is checked for a first claim, so an evaluation with an old
snapshot can claim a run with a condition that another run has consumed.

* `currentClaims` — valid conditions are recorded once, and new AND runs are claimed
  while their participants are stored;
* `ApartInv` — participants of claimed AND runs are consumed for good;
* `participants_apart` — then no valid condition takes part in two runs of an AND trigger;
* `participant_shared` — two evaluations with different snapshots share a participant.
-/

namespace Rustvello.Mem

open Concurrency Proto Rustvello.Core

/-- Every valid condition is recorded at most once.  A claim of an AND run that is not
claimed yet is made while the store has all its participants. -/
def currentClaims : Guard triggerStore MemTriggerStore TriggerTask where
  start _ _ := True
  call s _ c := match c with
    | .recordValidCondition vc => ∀ t ∈ s.threads, ∀ vc' ∈ t.log.filterMap recordedBy?,
        vc'.validConditionId ≠ vc.validConditionId
    | .claimTriggerRunsWithRecords records _ => ∀ record ∈ records, record.logic = .and →
        ¬ s.shared.Claimed record.triggerRunId → ∀ participant ∈ record.participants,
          (s.shared.validConditions.lookup participant.validConditionId).isSome = true
    | _ => True

instance (s : System triggerStore MemTriggerStore TriggerTask) (task : TriggerTask) :
    Decidable (currentClaims.start s task) :=
  inferInstanceAs (Decidable True)

instance (s : System triggerStore MemTriggerStore TriggerTask) (i : Nat) (c : TriggerCall) :
    Decidable (currentClaims.call s i c) :=
  match c with
  | .recordValidCondition vc =>
      inferInstanceAs (Decidable (∀ t ∈ s.threads, ∀ vc' ∈ t.log.filterMap recordedBy?,
        vc'.validConditionId ≠ vc.validConditionId))
  | .claimTriggerRunsWithRecords records _ =>
      inferInstanceAs (Decidable (∀ record ∈ records, record.logic = .and →
        ¬ s.shared.Claimed record.triggerRunId → ∀ participant ∈ record.participants,
          (s.shared.validConditions.lookup participant.validConditionId).isSome = true))
  | .getConditionsForTask _ | .getCronConditions | .getEventConditions _
  | .getTriggersForCondition _ | .getValidConditions | .getLastCronExecution _
  | .storeCronExecution _ _ _ | .storeEvent _ | .utcNow | .newEventId | .keyOrder _ =>
      inferInstanceAs (Decidable True)

section Participants

variable {codec : Codec} {init : MemTriggerStore} {before after : List Desk}
  {snapshot : List ValidCondition} {consumed : List (List Char)}

/-- The recorded conditions of a desk, read off the log. -/
theorem book_recorded (t : Thread triggerStore TriggerTask) :
    ((deskDiscipline codec init).book t).recorded = t.log.filterMap recordedBy? := by
  obtain ⟨task, prog, log⟩ := t
  induction log with
  | nil => rfl
  | cons e log ih =>
      obtain ⟨c, r⟩ := e
      cases c
      case recordValidCondition vc =>
        show vc :: ((deskDiscipline codec init).book ⟨task, prog, log⟩).recorded = _
        rw [ih]
        rfl
      all_goals exact ih

/-! ## What is planned for an AND trigger -/

/-- A planned record comes from a registered trigger.  An AND run consumes its
participants, and a trigger plans at most one. -/
theorem Planned.record (hinit : init.TriggersIndexed) {records : List TriggerRun}
    (h : Planned codec init snapshot records consumed) {record : TriggerRun}
    (hrecord : record ∈ records) :
    (∃ trigger, init.triggers.lookup record.triggerId = some trigger ∧
      record.logic = trigger.logic) ∧
    (record.logic = .and → ∀ participant ∈ record.participants,
      participant.validConditionId ∈ consumed) ∧
    ∀ other ∈ records, record.logic = .and → other.triggerId = record.triggerId →
      other = record := by
  obtain ⟨now, ordered, hnodup, hordered, rfl, rfl⟩ := h
  have hcandidate : ∀ {trigger : TriggerDefinitionDTO} {candidate : TriggerRun × TriggerExecution},
      candidate ∈ candidatesOf codec now snapshot trigger →
        candidate.1.triggerId = trigger.triggerId ∧ candidate.1.logic = trigger.logic ∧
        (trigger.logic = .and → allConditionsValid snapshot trigger = true ∧
          candidate = plannedRun codec now (andRunId trigger (selectedOf snapshot trigger)) trigger
            (selectedOf snapshot trigger)) := by
    intro trigger candidate hmem
    unfold candidatesOf at hmem
    split at hmem
    · split at hmem
      · rename_i hvalid
        obtain rfl := List.mem_singleton.mp hmem
        exact ⟨rfl, rfl, fun _ => ⟨hvalid, rfl⟩⟩
      · cases hmem
    · rename_i hor
      obtain ⟨condId, _, hvc⟩ := List.mem_flatMap.mp hmem
      obtain ⟨vc, _, rfl⟩ := List.mem_map.mp hvc
      exact ⟨rfl, rfl, fun hand => absurd (hand.symm.trans hor) (by simp)⟩
  obtain ⟨candidate, hmem, rfl⟩ := List.mem_map.mp hrecord
  obtain ⟨trigger, htrigger, hin⟩ := List.mem_flatMap.mp hmem
  obtain ⟨hid, hlogic, hand⟩ := hcandidate hin
  refine ⟨?_, ?_, ?_⟩
  · obtain ⟨vc, _, hfound⟩ := (hordered trigger).mp htrigger
    have hlookup := ((MemTriggerStore.mem_getTriggersForCondition hinit).mp hfound).2
    exact ⟨trigger, by rw [hid]; exact hlookup, hlogic⟩
  · intro hrun participant hparticipant
    obtain ⟨hvalid, rfl⟩ := hand (hlogic.symm.trans hrun)
    obtain ⟨vc, hselected, rfl⟩ := List.mem_map.mp hparticipant
    obtain ⟨condId, hcond, hhead⟩ := List.mem_filterMap.mp hselected
    rw [mem_sortTexts, List.mem_dedup]
    refine List.mem_flatMap.mpr ⟨trigger, htrigger, ?_⟩
    rw [consumedBy, hlogic.symm.trans hrun, if_pos hvalid]
    rw [participantFromValidCondition_validConditionId]
    exact List.mem_flatMap.mpr ⟨condId, hcond, List.mem_map_of_mem (List.mem_of_mem_head? hhead)⟩
  · intro other hother hrun hsame
    obtain ⟨candidate', hmem', rfl⟩ := List.mem_map.mp hother
    obtain ⟨trigger', htrigger', hin'⟩ := List.mem_flatMap.mp hmem'
    obtain ⟨hid', _, hand'⟩ := hcandidate hin'
    -- one trigger has one id among those of an evaluation
    obtain rfl : trigger' = trigger :=
      List.inj_on_of_nodup_map hnodup htrigger' htrigger (hid'.symm.trans (hsame.trans hid))
    have htrig := hlogic.symm.trans hrun
    rw [(hand htrig).2, (hand' htrig).2]

/-! ## The invariant -/

/-- Some operation recorded a valid condition of this id. -/
def WasRecorded (books : List Desk) (key : List Char) : Prop :=
  ∃ g ∈ books, ∃ vc ∈ g.recorded, vc.validConditionId = key

/-- Participants of claimed AND runs were recorded and are consumed; runs of one AND
trigger have no participant in common. -/
structure ApartInv (init s : MemTriggerStore) (books : List Desk) : Prop where
  origin : ∀ runId run, s.triggerRuns.lookup runId = some run →
    ∃ trigger, init.triggers.lookup run.triggerId = some trigger ∧ run.logic = trigger.logic
  traced : ∀ key vc, s.validConditions.lookup key = some vc → WasRecorded books key
  spent : ∀ runId run, s.triggerRuns.lookup runId = some run → run.logic = .and →
    ∀ participant ∈ run.participants,
      s.validConditions.lookup participant.validConditionId = none ∧
        WasRecorded books participant.validConditionId
  apart : ∀ runId run runId' run', s.triggerRuns.lookup runId = some run →
    s.triggerRuns.lookup runId' = some run' → run.logic = .and →
    run'.triggerId = run.triggerId → runId ≠ runId' →
    ∀ participant ∈ run.participants, ∀ participant' ∈ run'.participants,
      participant.validConditionId ≠ participant'.validConditionId

theorem WasRecorded.mono {g g' : Desk} {key : List Char}
    (h : WasRecorded (before ++ g :: after) key) (hsub : g.recorded ⊆ g'.recorded) :
    WasRecorded (before ++ g' :: after) key := by
  obtain ⟨x, hx, vc, hvc, hid⟩ := h
  rcases List.mem_append.mp hx with hx | hx
  · exact ⟨x, List.mem_append_left _ hx, vc, hvc, hid⟩
  · rcases List.mem_cons.mp hx with rfl | hx
    · exact ⟨g', by simp, vc, hsub hvc, hid⟩
    · exact ⟨x, List.mem_append_right _ (List.mem_cons_of_mem _ hx), vc, hvc, hid⟩

/-- A call that touches neither valid conditions nor runs. -/
theorem ApartInv.of_quiet {s s' : MemTriggerStore} {g g' : Desk}
    (h : ApartInv init s (before ++ g :: after)) (hvalid : s'.validConditions = s.validConditions)
    (hruns : s'.triggerRuns = s.triggerRuns) (hrecorded : g'.recorded = g.recorded) :
    ApartInv init s' (before ++ g' :: after) := by
  have hmono : ∀ key, WasRecorded (before ++ g :: after) key →
      WasRecorded (before ++ g' :: after) key :=
    fun key hkey => hkey.mono fun vc hvc => hrecorded ▸ hvc
  constructor
  · rw [hruns]
    exact h.origin
  · rw [hvalid]
    exact fun key vc hlookup => hmono key (h.traced key vc hlookup)
  · rw [hruns, hvalid]
    intro runId run hrun hand participant hparticipant
    obtain ⟨hnone, hrec⟩ := h.spent runId run hrun hand participant hparticipant
    exact ⟨hnone, hmono _ hrec⟩
  · rw [hruns]
    exact h.apart

/-- Recording a valid condition for the first time. -/
theorem ApartInv.record {s : MemTriggerStore} {g : Desk}
    (h : ApartInv init s (before ++ g :: after)) {vc : ValidCondition}
    (hnew : ¬ WasRecorded (before ++ g :: after) vc.validConditionId) :
    ApartInv init (s.recordValidCondition vc)
      (before ++ { g with recorded := vc :: g.recorded } :: after) := by
  have hmono : ∀ key, WasRecorded (before ++ g :: after) key →
      WasRecorded (before ++ { g with recorded := vc :: g.recorded } :: after) key :=
    fun key hkey => hkey.mono (List.subset_cons_self _ _)
  constructor
  · exact h.origin
  · intro key vc' hlookup
    rw [MemTriggerStore.lookup_record] at hlookup
    split at hlookup
    · rename_i hid
      exact ⟨{ g with recorded := vc :: g.recorded }, by simp, vc, List.mem_cons_self, hid.symm⟩
    · exact hmono key (h.traced key vc' hlookup)
  · intro runId run hrun hand participant hparticipant
    obtain ⟨hnone, hrec⟩ := h.spent runId run hrun hand participant hparticipant
    refine ⟨?_, hmono _ hrec⟩
    rw [MemTriggerStore.lookup_record, if_neg]
    · exact hnone
    · intro hid
      exact hnew (hid ▸ hrec)
  · exact h.apart

/-- A planned claim, made while the participants of its new AND runs are stored. -/
theorem ApartInv.claim (hinit : init.TriggersIndexed) {s s' : MemTriggerStore} {g : Desk}
    (h : ApartInv init s (before ++ g :: after)) {records : List TriggerRun} {flags : List Bool}
    (hplanned : Planned codec init snapshot records consumed)
    (hclaim : MemTriggerStore.ClaimsAndConsumes s records consumed flags s')
    (hcurrent : ∀ record ∈ records, record.logic = .and → ¬ s.Claimed record.triggerRunId →
      ∀ participant ∈ record.participants,
        (s.validConditions.lookup participant.validConditionId).isSome = true) :
    ApartInv init s'
      (before ++ { g with claimed := true, first := firstClaims records flags } :: after) := by
  have hmono : ∀ key, WasRecorded (before ++ g :: after) key → WasRecorded
      (before ++ { g with claimed := true, first := firstClaims records flags } :: after) key :=
    fun key hkey => hkey.mono fun _ hvc => hvc
  -- a run is an old one, or a new one of the claim with stored participants
  have hcases : ∀ runId run, s'.triggerRuns.lookup runId = some run →
      s.triggerRuns.lookup runId = some run ∨ run ∈ records ∧ (run.logic = .and →
        ∀ participant ∈ run.participants,
          (s.validConditions.lookup participant.validConditionId).isSome = true) := by
    intro runId run hrun
    rcases hclaim.runs runId run hrun with hold | ⟨hnew, hmem⟩
    · exact .inl hold
    · have hid := hclaim.recorded.keyed runId run hrun
      exact .inr ⟨hmem, fun hand => hcurrent run hmem hand (hid ▸ hnew)⟩
  have hold : ∀ {key : List Char}, s.validConditions.lookup key = none →
      s'.validConditions.lookup key = none := by
    intro key hnone
    rw [hclaim.valid, hnone, ite_self]
  have horigin : ∀ runId run, s'.triggerRuns.lookup runId = some run →
      ∃ trigger, init.triggers.lookup run.triggerId = some trigger ∧
        run.logic = trigger.logic := by
    intro runId run hrun
    rcases hcases runId run hrun with hrun | ⟨hmem, _⟩
    · exact h.origin runId run hrun
    · exact (hplanned.record hinit hmem).1
  constructor
  · exact horigin
  · intro key vc hlookup
    rw [hclaim.valid] at hlookup
    split at hlookup
    · cases hlookup
    · exact hmono key (h.traced key vc hlookup)
  · intro runId run hrun hand participant hparticipant
    rcases hcases runId run hrun with hrun | ⟨hmem, hstored⟩
    · obtain ⟨hnone, hrec⟩ := h.spent runId run hrun hand participant hparticipant
      exact ⟨hold hnone, hmono _ hrec⟩
    · have hconsumed := (hplanned.record hinit hmem).2.1 hand participant hparticipant
      obtain ⟨vc, hlookup⟩ := Option.isSome_iff_exists.mp (hstored hand participant hparticipant)
      exact ⟨by rw [hclaim.valid, if_pos hconsumed], hmono _ (h.traced _ vc hlookup)⟩
  · intro runId run runId' run' hrun hrun' hand hsame hne participant hp participant' hp' hid
    have hand' : run'.logic = .and := by
      obtain ⟨trigger, hlookup, hlogic⟩ := horigin runId run hrun
      obtain ⟨trigger', hlookup', hlogic'⟩ := horigin runId' run' hrun'
      rw [hsame, hlookup] at hlookup'
      obtain rfl := Option.some.inj hlookup'
      exact hlogic'.trans (hlogic.symm.trans hand)
    rcases hcases runId run hrun with hrunOld | ⟨hmem, hstored⟩
    · rcases hcases runId' run' hrun' with hrunOld' | ⟨hmem', hstored'⟩
      · exact h.apart runId run runId' run' hrunOld hrunOld' hand hsame hne participant hp
          participant' hp' hid
      · -- what an old run consumed is not stored any more
        have hnone := (h.spent runId run hrunOld hand participant hp).1
        have hsome := hstored' hand' participant' hp'
        rw [← hid, hnone] at hsome
        cases hsome
    · rcases hcases runId' run' hrun' with hrunOld' | ⟨hmem', hstored'⟩
      · have hnone := (h.spent runId' run' hrunOld' hand' participant' hp').1
        have hsome := hstored hand participant hp
        rw [hid, hnone] at hsome
        cases hsome
      · -- one claim has at most one run of an AND trigger
        obtain rfl := (hplanned.record hinit hmem).2.2 run' hmem' hand hsame
        have hkey := hclaim.recorded.keyed runId run' hrun
        have hkey' := hclaim.recorded.keyed runId' run' hrun'
        exact hne (hkey.symm.trans hkey')

/-! ## Runs -/

/-- Every call that the guard allows keeps the participants apart. -/
theorem apartInv_call (hinit : init.TriggersIndexed) {s : MemTriggerStore} (env : TriggerEnv)
    {c : TriggerCall} {g : Desk} (hpre : (deskDiscipline codec init).pre c g)
    (hrecord : ∀ vc, c = .recordValidCondition vc →
      ¬ WasRecorded (before ++ g :: after) vc.validConditionId)
    (hcurrent : ∀ records consumed, c = .claimTriggerRunsWithRecords records consumed →
      ∀ record ∈ records, record.logic = .and → ¬ s.Claimed record.triggerRunId →
        ∀ participant ∈ record.participants,
          (s.validConditions.lookup participant.validConditionId).isSome = true)
    (hinv : RunsInv codec init s (before ++ g :: after))
    (h : ApartInv init s (before ++ g :: after)) :
    ApartInv init (MemTriggerStore.exec env c s).2
      (before ++ (deskDiscipline codec init).next c (MemTriggerStore.exec env c s).1 g ::
        after) := by
  cases c
  case recordValidCondition vc => exact h.record (hrecord vc rfl)
  case claimTriggerRunsWithRecords records consumed =>
    obtain ⟨_, _, snapshot, _, hplanned⟩ := hpre
    have hclaim := MemTriggerStore.claim_claimsAndConsumes env.clock.instant hinv.runs records
      consumed
    exact h.claim hinit hplanned hclaim (hcurrent records consumed rfl)
  case storeCronExecution condId time last =>
    rw [MemTriggerStore.exec_storeCronExecution]
    exact h.of_quiet rfl rfl rfl
  all_goals exact h.of_quiet rfl rfl rfl

theorem apartUpheld (codec : Codec) (hinit : init.TriggersIndexed)
    (hidle : init.validConditions = ∅ ∧ init.triggerRunClaims = ∅ ∧ init.triggerRuns = ∅)
    (croner : Croner) :
    (deskDiscipline codec init).Upheld (Desk.Settled codec init)
      (fun s books => RunsInv codec init s books ∧ ApartInv init s books)
      (triggerMachine croner codec) currentClaims ⟨init, []⟩ := by
  apply (runsUpheld codec hinit hidle croner currentClaims).and
  · obtain ⟨hvalid, _, hruns⟩ := hidle
    constructor
    · intro runId run hrun
      simp [hruns] at hrun
    · intro key vc hlookup
      simp [hvalid] at hlookup
    · intro runId run hrun
      simp [hruns] at hrun
    · intro runId run runId' run' hrun
      simp [hruns] at hrun
  · intro s task h
    have hmono : ∀ key, WasRecorded (s.books (deskDiscipline codec init).toMonitor) key →
        WasRecorded (s.books (deskDiscipline codec init).toMonitor ++
          [(deskDiscipline codec init).start task]) key := by
      rintro key ⟨g, hg, hvc⟩
      exact ⟨g, List.mem_append_left _ hg, hvc⟩
    refine ⟨h.origin, fun key vc hlookup => hmono key (h.traced key vc hlookup), ?_, h.apart⟩
    intro runId run hrun hand participant hparticipant
    obtain ⟨hnone, hrec⟩ := h.spent runId run hrun hand participant hparticipant
    exact ⟨hnone, hmono _ hrec⟩
  · intro s i env t c before after hturn hinv h
    refine apartInv_call hinit env hturn.permitted ?_ ?_ hinv h
    · rintro vc rfl ⟨g, hg, vc', hvc', hid⟩
      rw [← hturn.books] at hg
      obtain ⟨t', ht', rfl⟩ := List.mem_map.mp hg
      rw [book_recorded] at hvc'
      exact hturn.allowed t' ht' vc' hvc' hid
    · rintro records consumed rfl
      exact hturn.allowed

/-- **Participants.**  In every run whose claims are current, for every AND trigger: two of
its claimed runs have no valid condition in common. -/
theorem participants_apart (codec : Codec) (croner : Croner) (conditions : List TriggerCondition)
    (triggers : List TriggerDefinitionDTO)
    {s : System triggerStore MemTriggerStore TriggerTask}
    (hreach : Reachable (triggerMachine croner codec) currentClaims
      ⟨MemTriggerStore.withTriggers codec conditions triggers, []⟩ s)
    {trigger : TriggerDefinitionDTO} (hregistered :
      (MemTriggerStore.withTriggers codec conditions triggers).triggers.lookup
        trigger.triggerId = some trigger) (hlogic : trigger.logic = .and)
    {runId runId' : TriggerRunId} {run run' : TriggerRun}
    (hrun : s.shared.triggerRuns.lookup runId = some run)
    (hrun' : s.shared.triggerRuns.lookup runId' = some run')
    (htrigger : run.triggerId = trigger.triggerId) (htrigger' : run'.triggerId = trigger.triggerId)
    (hne : runId ≠ runId') :
    ∀ participant ∈ run.participants, ∀ participant' ∈ run'.participants,
      participant.validConditionId ≠ participant'.validConditionId := by
  have hinit := MemTriggerStore.withTriggers_indexed codec conditions triggers
  have hidle := MemTriggerStore.withTriggers_idle codec conditions triggers
  obtain ⟨_, _, hinv⟩ := (apartUpheld codec hinit hidle croner).obeyed hreach
  have hand : run.logic = .and := by
    obtain ⟨found, hlookup, hsame⟩ := hinv.origin runId run hrun
    rw [htrigger, hregistered] at hlookup
    obtain rfl := Option.some.inj hlookup
    exact hsame.trans hlogic
  exact hinv.apart runId run runId' run' hrun hrun' hand (htrigger'.trans htrigger.symm) hne

end Participants

/-! ## Two evaluations -/

/-- A trigger on both of two events. -/
def onBoth : TriggerDefinitionDTO :=
  ⟨⟨"both".toList⟩, ⟨.rust, "mail", "send"⟩, [(onEvent "a").conditionId sampleCodec,
    (onEvent "b").conditionId sampleCodec], .and, none⟩

def bothWatched : System triggerStore MemTriggerStore TriggerTask :=
  ⟨MemTriggerStore.withTriggers sampleCodec [onEvent "a", onEvent "b"] [onBoth], []⟩

/-- An event is emitted by operation `thread`. -/
def emitted (thread : Nat) (eventCode eventId : String) : List (Label TriggerEnv TriggerTask) :=
  .start (.event eventCode .null) :: Label.steps thread 6 { eventId := eventId }

/-- Two runs of the trigger have been claimed. -/
def TwoRuns (s : MemTriggerStore) (P : TriggerRun → TriggerRun → Prop) : Prop :=
  ∃ entry ∈ s.triggerRuns.entries, ∃ entry' ∈ s.triggerRuns.entries, entry.1 ≠ entry'.1 ∧
    entry.2.triggerId = onBoth.triggerId ∧ entry'.2.triggerId = onBoth.triggerId ∧
    P entry.2 entry'.2

instance (s : MemTriggerStore) (P : TriggerRun → TriggerRun → Prop) [∀ a b, Decidable (P a b)] :
    Decidable (TwoRuns s P) :=
  inferInstanceAs (Decidable (∃ entry ∈ _, ∃ entry' ∈ _, _))

/-- The runs have a valid condition in common. -/
def Shared (run run' : TriggerRun) : Prop :=
  ∃ participant ∈ run.participants, ∃ participant' ∈ run'.participants,
    participant.validConditionId = participant'.validConditionId

instance (run run' : TriggerRun) : Decidable (Shared run run') :=
  inferInstanceAs (Decidable (∃ participant ∈ _, ∃ participant' ∈ _, _))

/-- Both events twice, with a complete evaluation after each pair: the two runs share
nothing. -/
theorem participants_apart_onBoth :
    ∃ s, Reachable (triggerMachine idleCroner sampleCodec) currentClaims bothWatched s ∧
      TwoRuns s.shared fun run run' => ¬ Shared run run' := by
  obtain ⟨s, hreach, htwo⟩ := Reachable.exists_of_run (triggerMachine idleCroner sampleCodec)
    currentClaims bothWatched
    (emitted 0 "a" "e-1" ++ emitted 1 "b" "e-2" ++ .start .evaluate :: Label.steps 2 7 default ++
      emitted 3 "a" "e-3" ++ emitted 4 "b" "e-4" ++ .start .evaluate :: Label.steps 5 7 default)
    (fun s => TwoRuns s.shared fun _ _ => True) (by decide +kernel) (by decide +kernel)
  obtain ⟨entry, hentry, entry', hentry', hne, htrigger, htrigger', _⟩ := htwo
  have hapart := participants_apart sampleCodec idleCroner [onEvent "a", onEvent "b"] [onBoth]
    hreach (AList.lookup_insert _) rfl (AList.mem_lookup_iff.mpr hentry)
    (AList.mem_lookup_iff.mpr hentry') htrigger htrigger' hne
  refine ⟨s, hreach, entry, hentry, entry', hentry', hne, htrigger, htrigger', ?_⟩
  rintro ⟨participant, hp, participant', hp', hid⟩
  exact hapart participant hp participant' hp' hid

/-- The second evaluation has taken its snapshot, with one more event, before the first one
claims: both runs take the same event of code `a`.  Every event was recorded once. -/
theorem participant_shared :
    ∃ s, Reachable (triggerMachine idleCroner sampleCodec)
        (Guard.top triggerStore MemTriggerStore TriggerTask) bothWatched s ∧
      ((s.threads.flatMap fun t => t.log.filterMap recordedBy?).map
        ValidCondition.validConditionId).Nodup ∧
      onBoth.logic = .and ∧ TwoRuns s.shared Shared := by
  obtain ⟨s, hreach, honce, hshared⟩ := Reachable.exists_of_run
    (triggerMachine idleCroner sampleCodec)
    (Guard.top triggerStore MemTriggerStore TriggerTask) bothWatched
    (emitted 0 "a" "e-1" ++ emitted 1 "b" "e-2" ++ .start .evaluate :: Label.steps 2 1 default ++
      emitted 3 "b" "e-3" ++ .start .evaluate :: Label.steps 4 1 default ++
      Label.steps 2 6 default ++ Label.steps 4 6 default)
    (fun s => ((s.threads.flatMap fun t => t.log.filterMap recordedBy?).map
        ValidCondition.validConditionId).Nodup ∧ TwoRuns s.shared Shared)
    (Guard.allowsAll_top _ _ _) (by decide +kernel)
  exact ⟨s, hreach, honce, rfl, hshared⟩

end Rustvello.Mem
