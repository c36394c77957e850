import Rustvello.Mem.Runners

/-!
# Recovery passes and live owners

A recovery pass asks once which `pending` and `running` invocations are stale, and takes
them over one after the other.  The take-over overrides ownership and does not look at the
age of the record again, so a pass is safe only as long as nobody revives what it has
listed.

* `Listing`, `recovering` — what a pass has listed and not yet dealt with;
* `Stale` — a record whose owner is gone: too long `pending`, or `running` without a sign
  of life;
* `revives`, `nothingRevived` — the calls that give a listed invocation a live owner, and
  the runs without them;
* `recovery_replaces_stale` — in these runs every take-over replaces a stale record.
-/

namespace Rustvello.Mem

open Concurrency Proto Rustvello.Core Orchestration

/-! ## What a pass has listed -/

/-- What a recovery pass has listed and not yet dealt with. -/
structure Listing where
  listed : List (InvocationId × InvocationStatus) := []
  /-- The invocation that the pass took over last, until it is rerouted or fails. -/
  takenOver : Option InvocationId := none

namespace Listing

def add (g : Listing) (ids : List InvocationId) (recoveryStatus : InvocationStatus) : Listing :=
  { g with listed := g.listed ++ ids.map fun id => (id, recoveryStatus) }

/-- A take-over deals with its entry.  So does the write that follows it, when the recovery
was resumed and there was no take-over. -/
def write (g : Listing) (id : InvocationId) (status : InvocationStatus) (accepted : Bool) :
    Listing :=
  if isRecoveryStatus status then
    { listed := g.listed.erase (id, status)
      takenOver := if accepted then some id else g.takenOver }
  else if g.takenOver = some id then { g with takenOver := none }
  else { g with listed := g.listed.eraseP fun entry => decide (entry.1 = id) }

def next : (c : runnerPorts.Op) → runnerPorts.Ret c → Listing → Listing
  | .inr (.getStalePendingInvocations _), .ok ids, g => g.add ids .pendingRecovery
  | .inr (.getStaleRunningInvocations _), .ok ids, g => g.add ids .runningRecovery
  | .inr (.getInvocationsByStatus status), .ok ids, g => g.add ids status
  | .inl (.setInvocationStatus id status _), .ok _, g => g.write id status true
  | .inl (.setInvocationStatus id status _), .error _, g => g.write id status false
  | _, _, g => g

end Listing

/-- A recovery status is written only for an invocation that was listed with it, and the
queries are made with the thresholds of the configuration. -/
def recovering (config : AppConfig) : Discipline runnerPorts RunnerTask Listing where
  start _ := {}
  next := Listing.next
  pre
    | .inl (.setInvocationStatus id status _), g =>
        isRecoveryStatus status = true → (id, status) ∈ g.listed
    | .inr (.getStalePendingInvocations seconds), _ => seconds = config.maxPendingSeconds
    | .inr (.getStaleRunningInvocations seconds), _ => seconds = config.runnerDeadAfterSeconds
    | _, _ => True
  resp c _ r := RunnerTruthful c r

/-! ## Operations keep to it -/

section Programs

variable {d : Deployment} {config : AppConfig} {rest : List (InvocationId × InvocationStatus)}
  {id : InvocationId} {recoveryStatus : InvocationStatus} {g : Listing}

theorem recovering_writesAlone (config : AppConfig) : WritesAlone (recovering config).left where
  lookups := ⟨fun _ _ => ⟨trivial, fun _ => rfl⟩, fun _ _ => ⟨trivial, fun _ => rfl⟩⟩
  reports := ⟨fun _ _ _ _ _ => ⟨trivial, fun _ => rfl⟩, fun _ _ _ _ _ => ⟨trivial, fun _ => rfl⟩,
    fun _ _ _ _ _ _ => ⟨trivial, fun _ => rfl⟩⟩
  release _ _ := ⟨trivial, fun _ => rfl⟩
  purge _ _ := ⟨trivial, fun _ => rfl⟩
  history _ _ := ⟨trivial, fun _ => rfl⟩

/-- Either the take-over has dealt with the entry, or the next write will. -/
def Resumes (id : InvocationId) (recoveryStatus : InvocationStatus)
    (rest : List (InvocationId × InvocationStatus)) (g : Listing) : Prop :=
  (g.takenOver = some id ∧ rest.Sublist g.listed) ∨
    ((id, recoveryStatus) :: rest).Sublist g.listed

theorem Resumes.sublist (h : Resumes id recoveryStatus rest g) : rest.Sublist g.listed := by
  rcases h with ⟨_, h⟩ | h
  · exact h
  · exact (List.sublist_cons_self _ _).trans h

/-- After the write that ends a recovery only the other candidates are left. -/
theorem Resumes.write {recoveryStatus status : InvocationStatus}
    (h : Resumes id recoveryStatus rest g) (hstatus : isRecoveryStatus status = false)
    (accepted : Bool) : rest.Sublist (g.write id status accepted).listed := by
  unfold Listing.write
  rw [if_neg (by simp [hstatus])]
  split
  · exact h.sublist
  · rename_i htaken
    rcases h with ⟨h, _⟩ | h
    · exact absurd h htaken
    · have herase := h.eraseP (p := fun entry => decide (entry.1 = id))
      simpa using herase

theorem takeOver_obeys (hd : d.publication = false)
    (hrecovery : isRecoveryStatus recoveryStatus = true) (runner : RunnerId) (resuming : Bool)
    (h : ((id, recoveryStatus) :: rest).Sublist g.listed) :
    (recovering config).left.ObeysE (takeOver d id runner recoveryStatus resuming)
      (fun taken g' => if taken then Resumes id recoveryStatus rest g' else
        rest.Sublist g'.listed)
      (fun _ g' => rest.Sublist g'.listed) g := by
  have hrest : rest.Sublist g.listed := (List.sublist_cons_self _ _).trans h
  have hwritten : ∀ accepted, rest.Sublist (g.write id recoveryStatus accepted).listed := by
    intro accepted
    have herase := h.erase (id, recoveryStatus)
    rw [List.erase_cons_head] at herase
    unfold Listing.write
    rw [if_pos hrecovery]
    exact herase
  unfold takeOver
  cases resuming with
  | true => exact .inr h
  | false =>
      refine obeysE_attempt_bind.mpr ?_
      refine ((recovering_writesAlone config).setInvocationStatus_obeys hd id recoveryStatus runner
        (g := g) fun _ => h.subset List.mem_cons_self).mono ?_ ?_
      · rintro _ g' ⟨record, rfl⟩
        refine .inl ⟨?_, hwritten true⟩
        show (g.write id recoveryStatus true).takenOver = some id
        simp [Listing.write, hrecovery]
      · intro e g' hg'
        have hg : rest.Sublist g'.listed := by
          rcases hg' with rfl | ⟨r, rfl⟩
          · exact hrest
          · cases r with
            | ok record => exact hwritten true
            | error e => exact hwritten false
        dsimp only
        split
        · exact hg
        · exact hg

/-- A write after the take-over, with everything around it. -/
theorem endRecovery_obeys (hd : d.publication = false) {recoveryStatus status : InvocationStatus}
    (hstatus : isRecoveryStatus status = false) (runner : RunnerId)
    (h : Resumes id recoveryStatus rest g) :
    (recovering config).left.ObeysE (setInvocationStatus d id status runner)
      (fun _ g' => rest.Sublist g'.listed) (fun _ g' => rest.Sublist g'.listed) g := by
  have hpre : (recovering config).left.pre (.setInvocationStatus id status (some runner)) g := by
    intro hrecovery
    rw [hstatus] at hrecovery
    cases hrecovery
  refine ((recovering_writesAlone config).setInvocationStatus_obeys hd id status runner hpre).mono ?_ ?_
  · rintro _ g' ⟨record, rfl⟩
    exact h.write hstatus true
  · rintro e g' (rfl | ⟨r, rfl⟩)
    · exact h.sublist
    · cases r with
      | ok record => exact h.write hstatus true
      | error e => exact h.write hstatus false

/-- One candidate is recovered; the others stay listed. -/
theorem recoverOne_obeys (hd : d.publication = false)
    (hrecovery : isRecoveryStatus recoveryStatus = true) (runner : RunnerId)
    (h : ((id, recoveryStatus) :: rest).Sublist g.listed) :
    (recovering config).left.ObeysE (recoverOne d runner id recoveryStatus)
      (fun _ g' => rest.Sublist g'.listed) (fun _ g' => rest.Sublist g'.listed) g := by
  have hrest : rest.Sublist g.listed := (List.sublist_cons_self _ _).trans h
  have hskip : ∀ {c : PortCall} {β : Type} {f : c.Ans → Orch β} {Q : β → Listing → Prop},
      (recovering config).left.Quiet c →
      (∀ a, (recovering config).left.ObeysE (f a) Q (fun _ g' => rest.Sublist g'.listed) g) →
      (recovering config).left.ObeysE (port c >>= f) Q (fun _ g' => rest.Sublist g'.listed) g := by
    intro c β f Q hquiet hf
    exact Discipline.ObeysE.bind_of_uses (usesE_port hquiet) (fun _ => hrest) hf
  unfold recoverOne
  refine hskip (fun _ => ⟨trivial, fun _ => rfl⟩) fun invocation => ?_
  refine hskip (fun _ => ⟨trivial, fun _ => rfl⟩) fun current => ?_
  refine Discipline.ObeysE.bind_of_uses
    (usesE_recoveryCount (fun _ _ => ⟨trivial, fun _ => rfl⟩) id) (fun _ => hrest) ?_
  intro previous
  dsimp only
  generalize (if isRecoveryStatus current.status = true then previous else previous + 1) = attempts
  split
  · unfold failRecoveryLimit
    refine Discipline.ObeysE.bind (takeOver_obeys hd hrecovery runner _ h) ?_
    intro taken g' hg'
    cases taken with
    | false => exact hg'
    | true =>
        refine Discipline.ObeysE.bind_of_uses
          (usesE_port fun _ => ⟨trivial, fun _ => rfl⟩) (fun _ => Resumes.sublist hg') fun _ => ?_
        exact Discipline.ObeysE.bind (endRecovery_obeys hd rfl runner hg') fun _ _ h => h
  · split
    · exact hrest
    · rw [if_neg (by simp [hd])]
      unfold recoverOrdered
      refine Discipline.ObeysE.bind (takeOver_obeys hd hrecovery runner _ h) ?_
      intro taken g' hg'
      cases taken with
      | false => exact hg'
      | true =>
          refine Discipline.ObeysE.bind (endRecovery_obeys hd rfl runner hg') ?_
          intro _ g'' hg''
          refine Discipline.ObeysE.bind_of_uses
            (usesE_port fun _ => ⟨trivial, fun _ => rfl⟩) (fun _ => hg'') fun _ => hg''

theorem recoverAll_obeys (hd : d.publication = false) (runner : RunnerId)
    {candidates : List (InvocationId × InvocationStatus)}
    (hrecovery : ∀ entry ∈ candidates, isRecoveryStatus entry.2 = true)
    (h : candidates.Sublist g.listed) :
    (recovering config).left.ObeysE (recoverAll d runner candidates) (fun _ _ => True) (fun _ _ => True)
      g := by
  induction candidates generalizing g with
  | nil => trivial
  | cons entry rest ih =>
      have hrest : ∀ entry ∈ rest, isRecoveryStatus entry.2 = true := fun x hx =>
        hrecovery x (List.mem_cons_of_mem _ hx)
      unfold recoverAll
      refine obeysE_attempt_bind.mpr ?_
      refine (recoverOne_obeys hd (hrecovery entry List.mem_cons_self) runner h).mono ?_ ?_
      · intro outcome g' hg'
        refine Discipline.ObeysE.bind (ih hrest hg') fun others _ _ => ?_
        cases outcome <;> trivial
      · intro e g' hg'
        exact Discipline.ObeysE.bind (ih hrest hg') fun others _ _ => trivial

/-- The candidates of an interrupted recovery are among those that were looked at. -/
theorem interruptedSince_obeys (status : InvocationStatus) (cutoff : Timestamp)
    (ids : List InvocationId) (g : Listing) :
    (recovering config).left.ObeysE (interruptedSince status cutoff ids)
      (fun found g' => g' = g ∧ found.Sublist (ids.map fun id => (id, status)))
      (fun _ _ => True) g := by
  induction ids with
  | nil => exact ⟨rfl, List.Sublist.refl _⟩
  | cons id rest ih =>
      unfold interruptedSince
      refine obeysE_attempt_bind.mpr (obeysE_port.mpr ⟨trivial, ?_⟩)
      rintro (e | record) _
      · refine ih.mono ?_ fun _ _ h => h
        rintro found g' ⟨rfl, h⟩
        exact ⟨rfl, h.trans (List.sublist_cons_self _ _)⟩
      · refine Discipline.ObeysE.bind ih ?_
        rintro found g' ⟨rfl, h⟩
        split
        · exact ⟨rfl, h.cons_cons _⟩
        · exact ⟨rfl, h.trans (List.sublist_cons_self _ _)⟩

/-- Some more invocations are listed, the candidates among them. -/
def Lists (g : Listing) (found : List (InvocationId × InvocationStatus)) (g' : Listing) : Prop :=
  ∃ extra, g'.listed = g.listed ++ extra ∧ found.Sublist extra ∧
    ∀ entry ∈ found, isRecoveryStatus entry.2 = true

theorem interruptedRecoveries_obeys {statuses : List (InvocationStatus × Nat)}
    (hstatuses : ∀ entry ∈ statuses, isRecoveryStatus entry.1 = true) (g : Listing) :
    (recovering config).ObeysE (interruptedRecoveries statuses) (Lists g) (fun _ _ => True) g := by
  induction statuses generalizing g with
  | nil => exact ⟨[], by simp, List.Sublist.refl _, by simp⟩
  | cons entry rest ih =>
      obtain ⟨status, staleAfter⟩ := entry
      have hstatus : isRecoveryStatus status = true := hstatuses (status, staleAfter)
        List.mem_cons_self
      have hrest := fun g => ih (fun x hx => hstatuses x (List.mem_cons_of_mem _ hx)) g
      unfold interruptedRecoveries
      refine obeysE_outcome_bind.mpr ⟨trivial, ?_⟩
      rintro (e | ids) _
      · exact hrest g
      · have hadd : (recovering config).next (.inr (.getInvocationsByStatus status)) (.ok ids) g =
            g.add ids status := rfl
        refine Discipline.ObeysE.bind (R := fun _ g' => g' = g.add ids status)
          (obeysE_lift.mpr (obeysE_port.mpr ⟨trivial, ?_⟩)) ?_
        · rintro (e | now) _
          · trivial
          · exact hadd
        rintro now g' rfl
        refine Discipline.ObeysE.bind
          (obeysE_lift.mpr (interruptedSince_obeys status _ ids (g.add ids status))) ?_
        rintro found g' ⟨rfl, hfound⟩
        refine Discipline.ObeysE.bind (hrest (g.add ids status)) ?_
        rintro others g' ⟨extra, hextra, hothers, hall⟩
        refine ⟨ids.map (fun id => (id, status)) ++ extra, ?_, hfound.append hothers, ?_⟩
        · rw [hextra]
          simp [Listing.add]
        · intro entry hentry
          rcases List.mem_append.mp hentry with hentry | hentry
          · obtain ⟨id, _, rfl⟩ := List.mem_map.mp (hfound.subset hentry)
            exact hstatus
          · exact hall entry hentry

theorem recoverStaleInvocations_obeys (hd : d.publication = false) (runner : RunnerId)
    (g : Listing) :
    (recovering d.appConfig).ObeysE (recoverStaleInvocations d runner) (fun _ _ => True)
      (fun _ _ => True) g := by
  unfold recoverStaleInvocations
  refine obeysE_runnerPort_bind.mpr ⟨rfl, fun pending _ => ?_, fun _ _ => trivial⟩
  refine obeysE_runnerPort_bind.mpr ⟨rfl, fun running _ => ?_, fun _ _ => trivial⟩
  have hlisted : (recovering d.appConfig).next (.inr (.getStaleRunningInvocations
        d.appConfig.runnerDeadAfterSeconds)) (.ok running)
      ((recovering d.appConfig).next (.inr (.getStalePendingInvocations d.appConfig.maxPendingSeconds))
        (.ok pending) g) =
      (g.add pending .pendingRecovery).add running .runningRecovery := rfl
  rw [hlisted]
  refine Discipline.ObeysE.bind (interruptedRecoveries_obeys ?_ _) ?_
  · intro entry hentry
    simp only [List.mem_cons, List.not_mem_nil, or_false] at hentry
    obtain rfl | rfl := hentry <;> rfl
  rintro interrupted g' ⟨extra, hextra, hsub, hall⟩
  refine obeysE_lift.mpr (recoverAll_obeys hd runner ?_ ?_)
  · intro entry hentry
    rcases List.mem_append.mp hentry with hentry | hentry
    · rcases List.mem_append.mp hentry with hentry | hentry
      · obtain ⟨id, _, rfl⟩ := List.mem_map.mp hentry
        rfl
      · obtain ⟨id, _, rfl⟩ := List.mem_map.mp hentry
        rfl
    · exact hall entry hentry
  · rw [hextra]
    simp only [Listing.add, List.append_assoc]
    exact ((List.Sublist.refl _).append ((List.Sublist.refl _).append hsub)).trans
      (List.sublist_append_right _ _)

/-- Every operation of the system keeps to it. -/
theorem program_obeys_recovering (hd : d.publication = false) {task : RunnerTask}
    (htask : task.isBareRecovery = false) :
    (recovering d.appConfig).Obeys (task.program d) (fun _ _ => True) {} := by
  by_cases hpass : ∃ runnerId, task = .recoverStale runnerId
  · obtain ⟨runnerId, rfl⟩ := hpass
    have hobeys := recoverStaleInvocations_obeys hd runnerId {}
    exact Discipline.Obeys.toUnit (Discipline.Obeys.mono hobeys fun _ _ _ => trivial)
  · have hwrites := RunnerTask.program_writes hd fun runnerId heq => hpass ⟨runnerId, heq⟩
    have hother : ∀ status ∈ task.writtenStatuses, isRecoveryStatus status = false := by
      cases task with
      | operation op =>
          cases op with
          | recover runnerId id status => cases htask
          | _ => simp [RunnerTask.writtenStatuses, isRecoveryStatus]
      | recoverStale runnerId => exact absurd ⟨runnerId, rfl⟩ hpass
      | _ => simp [RunnerTask.writtenStatuses, isRecoveryStatus]
    refine Discipline.Obeys.of_keeps (K := fun _ => True)
      (Prog.Uses.mono hwrites (by rintro _ _ ⟨_, h⟩; exact h) fun c hc => ?_) trivial
    intro g _
    refine ⟨?_, fun _ _ => trivial⟩
    rcases c with c | c
    · cases c <;> first | trivial | skip
      case setInvocationStatus id status runnerId =>
          intro hrecovery
          rw [hother status hc] at hrecovery
          cases hrecovery
    · cases c <;> trivial

end Programs

/-! ## Stale records -/

/-- The last sign of life of a record's owner: its heartbeat, or else the record itself. -/
def OrchestratorState.lastSeen (o : OrchestratorState) (record : InvocationStatusRecord) :
    Timestamp :=
  (record.runnerId.bind fun runnerId => o.heartbeats.lookup runnerId).getD record.timestamp

/-- The owner of the record is gone: it has been `pending` for too long, or it is `running`
and its owner has been silent for too long. -/
def Stale (config : AppConfig) (o : OrchestratorState) (now : Timestamp)
    (record : InvocationStatusRecord) : Prop :=
  (record.status = .pending ∧
      record.timestamp < now - durationSeconds config.maxPendingSeconds) ∨
    (record.status = .running ∧ record.runnerId ≠ none ∧
      o.lastSeen record < now - durationSeconds config.runnerDeadAfterSeconds)

instance (config : AppConfig) (o : OrchestratorState) (now : Timestamp)
    (record : InvocationStatusRecord) : Decidable (Stale config o now record) :=
  inferInstanceAs (Decidable (_ ∨ _))

section Stale

variable {config : AppConfig} {o o' : OrchestratorState} {now now' : Timestamp}
  {record : InvocationStatusRecord}

/-- What is stale stays stale while its owner is silent. -/
theorem Stale.later (h : Stale config o now record) (hnow : now ≤ now')
    (hseen : record.status = .running → o'.lastSeen record = o.lastSeen record) :
    Stale config o' now' record := by
  rcases h with ⟨hstatus, hold⟩ | ⟨hstatus, howner, hold⟩
  · exact .inl ⟨hstatus, lt_of_lt_of_le hold (sub_le_sub_right hnow _)⟩
  · refine .inr ⟨hstatus, howner, ?_⟩
    rw [hseen hstatus]
    exact lt_of_lt_of_le hold (sub_le_sub_right hnow _)

theorem stale_of_isStalePending
    (h : OrchestratorState.isStalePending now config.maxPendingSeconds record = true) :
    Stale config o now record := by
  simp only [OrchestratorState.isStalePending, Bool.and_eq_true, decide_eq_true_eq] at h
  exact .inl h

/-- Whole seconds round down. -/
theorem lt_of_lt_wholeSeconds {seconds : Nat} {delta : Int}
    (h : (seconds : Int) < OrchestratorState.wholeSeconds delta) :
    (seconds : Int) * 1000000000 < delta := by
  by_contra hnot
  have hle : delta.tdiv 1000000000 ≤ ((seconds : Int) * 1000000000).tdiv 1000000000 :=
    Int.tdiv_le_tdiv (by decide) (not_lt.mp hnot)
  rw [Int.mul_tdiv_cancel _ (by decide)] at hle
  exact absurd h (not_lt.mpr hle)

theorem stale_of_isStaleRunning (howner : record.runnerId ≠ none)
    (h : o.isStaleRunning now config.runnerDeadAfterSeconds record = true) :
    Stale config o now record := by
  simp only [OrchestratorState.isStaleRunning, Bool.and_eq_true, decide_eq_true_eq] at h
  obtain ⟨hstatus, hdead⟩ := h
  refine .inr ⟨hstatus, howner, ?_⟩
  obtain ⟨runnerId, hrunner⟩ := Option.ne_none_iff_exists'.mp howner
  simp only [OrchestratorState.isOwnerDead, hrunner] at hdead
  simp only [OrchestratorState.lastSeen, hrunner, Option.bind_some]
  cases hbeat : o.heartbeats.lookup runnerId with
  | none =>
      simp only [hbeat, decide_eq_true_eq] at hdead
      exact hdead
  | some last =>
      simp only [hbeat, decide_eq_true_eq] at hdead
      have hlong := lt_of_lt_wholeSeconds hdead
      show last < now - durationSeconds config.runnerDeadAfterSeconds
      exact lt_sub_comm.mp hlong

end Stale

/-! ## Runs in which nothing is revived -/

/-- The status that a recovery status replaces. -/
def takenFrom : InvocationStatus → Option InvocationStatus
  | .pendingRecovery => some .pending
  | .runningRecovery => some .running
  | _ => none

theorem takenFrom_of_canTransitionTo {status recoveryStatus : InvocationStatus}
    (hrecovery : isRecoveryStatus recoveryStatus = true)
    (h : status.canTransitionTo recoveryStatus = true) : takenFrom recoveryStatus = some status := by
  revert status recoveryStatus
  decide

/-- A call that gives a listed invocation a live owner: a new record of the kind that is to
be taken over, or a heartbeat of the owner of a `running` record. -/
def revives (o : OrchestratorState) (entry : InvocationId × InvocationStatus) :
    runnerPorts.Op → Bool
  | .inl (.setInvocationStatus id status _) =>
      decide (id = entry.1) && decide (takenFrom entry.2 = some status) &&
        (o.statusOf id).any fun current => current.canTransitionTo status
  | .inr (.registerHeartbeat runnerId) =>
      decide (entry.2 = .runningRecovery) && (o.statusRecords.lookup entry.1).any fun record =>
        decide (record.status = .running ∧ record.runnerId = some runnerId)
  | _ => false

/-- `recover_one` is called by passes only, and until a pass has dealt with an invocation it
has listed, nothing revives it. -/
def nothingRevived (config : AppConfig) : Guard runnerPorts (MemRuntime × Timestamp) RunnerTask where
  start _ task := task.isBareRecovery = false
  call s _ c := ∀ t ∈ s.threads, t.next? ≠ none → ∀ entry ∈ ((recovering config).book t).listed,
    revives s.shared.1.orchestrator entry c = false

instance (config : AppConfig) (s : System runnerPorts (MemRuntime × Timestamp) RunnerTask)
    (task : RunnerTask) : Decidable ((nothingRevived config).start s task) :=
  inferInstanceAs (Decidable (task.isBareRecovery = false))

instance (config : AppConfig) (s : System runnerPorts (MemRuntime × Timestamp) RunnerTask)
    (i : Nat) (c : runnerPorts.Op) : Decidable ((nothingRevived config).call s i c) :=
  inferInstanceAs (Decidable (∀ t ∈ s.threads, t.next? ≠ none →
    ∀ entry ∈ ((recovering config).book t).listed,
      revives s.shared.1.orchestrator entry c = false))

/-- If the entry is of the kind that a pass may take over, it is stale. -/
def Abandoned (config : AppConfig) (o : OrchestratorState) (now : Timestamp)
    (entry : InvocationId × InvocationStatus) : Prop :=
  ∀ record, o.statusRecords.lookup entry.1 = some record → takenFrom entry.2 = some record.status →
    Stale config o now record

/-- Whoever has a `pending`, `running` or `paused` invocation is known. -/
def OwnersKnown (o : OrchestratorState) : Prop :=
  ∀ id record, o.statusRecords.lookup id = some record → record.status.Owned →
    record.runnerId ≠ none

section Steps

variable {config : AppConfig} {s : MemRuntime} {now : Timestamp}
  {entry : InvocationId × InvocationStatus}

theorem ownersKnown_exec (h : OwnersKnown s.orchestrator) (env : Env) (c : runnerPorts.Op) :
    OwnersKnown (MemRuntime.execRunner env c s).2.orchestrator := by
  intro x found hfound howned
  obtain hrecords | ⟨id, call, runnerId, -, hrecords⟩ |
    ⟨id, status, runnerId, current, record, -, hcurrent, htrans, hrecords⟩ :=
    MemRuntime.execRunner_statusRecords env c s
  · rw [hrecords] at hfound
    exact h x found hfound howned
  · rw [hrecords] at hfound
    by_cases hx : x = id
    · subst hx
      rw [AList.lookup_insert] at hfound
      obtain rfl := Option.some.inj hfound
      simp [InvocationStatus.Owned] at howned
    · rw [AList.lookup_insert_ne hx] at hfound
      exact h x found hfound howned
  · rw [hrecords] at hfound
    by_cases hx : x = id
    · subst hx
      rw [AList.lookup_insert] at hfound
      obtain rfl := Option.some.inj hfound
      exact runnerId_of_owned htrans (h x current hcurrent) howned
    · rw [AList.lookup_insert_ne hx] at hfound
      exact h x found hfound howned

/-- The owner of a `running` invocation that is not revived stays silent. -/
theorem lastSeen_exec {record : InvocationStatusRecord}
    (hrecord : s.orchestrator.statusRecords.lookup entry.1 = some record)
    (hkind : takenFrom entry.2 = some record.status) {c : runnerPorts.Op}
    (hc : revives s.orchestrator entry c = false) (env : Env)
    (hrunning : record.status = .running) :
    (MemRuntime.execRunner env c s).2.orchestrator.lastSeen record =
      s.orchestrator.lastSeen record := by
  obtain hbeats | ⟨runnerId, rfl, hbeats⟩ := MemRuntime.execRunner_heartbeats env c s
  · simp only [OrchestratorState.lastSeen, hbeats]
  · have hlisted : entry.2 = .runningRecovery := by
      rw [hrunning] at hkind
      revert hkind
      cases entry.2 <;> simp [takenFrom]
    have hother : record.runnerId ≠ some runnerId := by
      intro hrunner
      simp [revives, hlisted, hrecord, hrunning, hrunner] at hc
    simp only [OrchestratorState.lastSeen, hbeats]
    cases howner : record.runnerId with
    | none => rfl
    | some owner =>
        have hne : owner ≠ runnerId := fun heq => hother (by rw [howner, heq])
        simp only [Option.bind_some, AList.lookup_insert_ne hne]

/-- What was abandoned and is not revived stays abandoned. -/
theorem Abandoned.exec (h : Abandoned config s.orchestrator now entry) {env : Env}
    (hnow : now ≤ env.clock) {c : runnerPorts.Op} (hc : revives s.orchestrator entry c = false) :
    Abandoned config (MemRuntime.execRunner env c s).2.orchestrator env.clock entry := by
  intro record hrecord hkind
  have hold : s.orchestrator.statusRecords.lookup entry.1 = some record := by
    obtain hrecords | ⟨id, call, runnerId, -, hrecords⟩ |
      ⟨id, status, runnerId, current, written, rfl, hcurrent, htrans, hrecords⟩ :=
      MemRuntime.execRunner_statusRecords env c s
    · rwa [hrecords] at hrecord
    · rw [hrecords] at hrecord
      by_cases hid : entry.1 = id
      · rw [hid, AList.lookup_insert] at hrecord
        obtain rfl := Option.some.inj hrecord
        revert hkind
        cases entry.2 <;> simp [takenFrom]
      · rwa [AList.lookup_insert_ne hid] at hrecord
    · rw [hrecords] at hrecord
      by_cases hid : entry.1 = id
      · -- an accepted write of the kind that the pass may take over revives the entry
        rw [hid, AList.lookup_insert] at hrecord
        obtain rfl := Option.some.inj hrecord
        obtain ⟨hcan, -, rfl⟩ := (statusRecordTransition_ok_iff _ _ _ _ _).mp htrans
        simp [revives, hid, hkind, OrchestratorState.statusOf, hcurrent, hcan] at hc
      · rwa [AList.lookup_insert_ne hid] at hrecord
  exact (h record hold hkind).later hnow (lastSeen_exec hold hkind hc env)

/-- What a query answers is abandoned. -/
theorem abandoned_of_query (howners : OwnersKnown s.orchestrator) {env : Env} {c : RunnerCall}
    {g : Listing} (hpre : (recovering config).pre (.inr c) g)
    (hentry : entry ∈ ((recovering config).next (.inr c)
      (MemRuntime.execRunner env (.inr c) s).1 g).listed) :
    entry ∈ g.listed ∨ Abandoned config
      (MemRuntime.execRunner env (.inr c) s).2.orchestrator env.clock entry := by
  cases c
  case getStalePendingInvocations seconds =>
      obtain rfl : seconds = config.maxPendingSeconds := hpre
      rcases List.mem_append.mp hentry with hentry | hentry
      · exact .inl hentry
      · obtain ⟨id, hid, rfl⟩ := List.mem_map.mp hentry
        obtain ⟨record, hrecord, hstale⟩ := OrchestratorState.mem_recordsWhere.mp hid
        refine .inr fun found hfound _ => ?_
        obtain rfl : record = found := Option.some.inj (hrecord.symm.trans hfound)
        exact stale_of_isStalePending hstale
  case getStaleRunningInvocations seconds =>
      obtain rfl : seconds = config.runnerDeadAfterSeconds := hpre
      rcases List.mem_append.mp hentry with hentry | hentry
      · exact .inl hentry
      · obtain ⟨id, hid, rfl⟩ := List.mem_map.mp hentry
        obtain ⟨record, hrecord, hstale⟩ := OrchestratorState.mem_recordsWhere.mp hid
        refine .inr fun found hfound hkind => ?_
        obtain rfl : record = found := Option.some.inj (hrecord.symm.trans hfound)
        have hrunning : InvocationStatus.running = record.status := Option.some.inj hkind
        have howned : record.status.Owned := .inr (.inl hrunning.symm)
        exact stale_of_isStaleRunning (howners id record hrecord howned) hstale
  case getInvocationsByStatus status =>
      rcases List.mem_append.mp hentry with hentry | hentry
      · exact .inl hentry
      · obtain ⟨id, hid, rfl⟩ := List.mem_map.mp hentry
        obtain ⟨record, hrecord, hstatus⟩ := OrchestratorState.mem_recordsWhere.mp hid
        refine .inr fun found hfound hkind => ?_
        obtain rfl : record = found := Option.some.inj (hrecord.symm.trans hfound)
        -- an interrupted recovery has the recovery status, not the one it replaces
        obtain rfl : record.status = status := of_decide_eq_true hstatus
        revert hkind
        cases record.status <;> simp [takenFrom]
  all_goals exact .inl hentry

/-- Port calls list nothing. -/
theorem mem_listed_of_port {c : PortCall} {r : RustvelloResult c.Ans} {g : Listing}
    (hentry : entry ∈ ((recovering config).next (.inl c) r g).listed) : entry ∈ g.listed := by
  cases c
  case setInvocationStatus id status runnerId =>
      have hwrite : ∀ accepted, entry ∈ (g.write id status accepted).listed →
          entry ∈ g.listed := by
        intro accepted hmem
        unfold Listing.write at hmem
        split at hmem
        · exact List.mem_of_mem_erase hmem
        · split at hmem
          · exact hmem
          · exact List.mem_of_mem_eraseP hmem
      cases r with
      | ok record => exact hwrite true hentry
      | error e => exact hwrite false hentry
  all_goals exact hentry

end Steps

/-! ## Every run -/

/-- The in-memory backends before the first operation, at some instant. -/
def runnersStart (now : Timestamp) : System runnerPorts (MemRuntime × Timestamp) RunnerTask :=
  ⟨({}, now), []⟩

/-- A pass relies on everything it has listed being abandoned. -/
theorem passes_undisturbed {d : Deployment} (hd : d.publication = false) (now : Timestamp) :
    (recovering d.appConfig).Undisturbed (fun s => OwnersKnown s.1.orchestrator)
      (fun s g => ∀ entry ∈ g.listed, Abandoned d.appConfig s.1.orchestrator s.2 entry)
      (timedRunners d) (nothingRevived d.appConfig)
      (runnersStart now) where
  program _ task htask := program_obeys_recovering hd htask
  idle := rfl
  holds := by
    intro id record hrecord
    simp [runnersStart] at hrecord
  start _ _ _ _ := by simp [recovering]
  call s i env t c ht hnext hallowed hpre howners hclaim := by
    have hopen : t.next? ≠ none := by simp [hnext]
    have hclock : s.shared.2 ≤ (forwardClock.look s.shared.2 env).clock := le_max_left _ _
    refine ⟨MemRuntime.execRunner_truthful _ c _, ownersKnown_exec howners _ c, ?_⟩
    intro entry hentry
    have hkept : entry ∈ ((recovering d.appConfig).book t).listed →
        Abandoned d.appConfig (MemRuntime.execRunner (forwardClock.look s.shared.2 env) c
          s.shared.1).2.orchestrator (forwardClock.look s.shared.2 env).clock entry :=
      fun hmem => (hclaim entry hmem).exec hclock
        (hallowed t (List.mem_of_getElem? ht) hopen entry hmem)
    rcases c with c | c
    · exact hkept (mem_listed_of_port hentry)
    · rcases abandoned_of_query howners hpre hentry with hmem | habandoned
      · exact hkept hmem
      · exact habandoned
  others s i env t c j t' ht hnext hallowed hpre howners hclaim hij ht' hopen hclaim' := by
    intro entry hentry
    exact (hclaim' entry hentry).exec (le_max_left _ _)
      (hallowed t' (List.mem_of_getElem? ht') hopen entry hentry)

/-- **Recovery never takes an invocation from a live owner** as long as nothing that a pass
has listed is revived before the pass has dealt with it: whenever a recovery status is
written, the record that it replaces is stale at that instant. -/
theorem recovery_replaces_stale {d : Deployment} (hd : d.publication = false) {now : Timestamp}
    {s : System runnerPorts (MemRuntime × Timestamp) RunnerTask}
    (hreach : Reachable (timedRunners d) (nothingRevived d.appConfig)
      (runnersStart now) s)
    {t : Thread runnerPorts RunnerTask} (ht : t ∈ s.threads) {id : InvocationId}
    {status : InvocationStatus} {runnerId : Option RunnerId}
    (hnext : t.next? = some (.inl (.setInvocationStatus id status runnerId)))
    (hstatus : isRecoveryStatus status = true) {env : Env} {written : InvocationStatusRecord}
    (haccepted : ((timedRunners d).exec env
      (.inl (.setInvocationStatus id status runnerId)) s.shared).1 = .ok written) :
    ∃ replaced, s.shared.1.orchestrator.statusRecords.lookup id = some replaced ∧
      Stale d.appConfig s.shared.1.orchestrator (max s.shared.2 env.clock) replaced := by
  obtain ⟨hpre, _, hclaim⟩ := (passes_undisturbed hd now).pending hreach ht hnext
  have hlisted : (id, status) ∈ ((recovering d.appConfig).book t).listed := hpre hstatus
  obtain ⟨current, record, _, _, hcurrent, htrans, -⟩ | ⟨_, e, -, -, heq⟩ | ⟨-, heq⟩ :=
    s.shared.1.orchestrator.setInvocationStatus_cases (max s.shared.2 env.clock) id status runnerId
  · obtain ⟨hcan, -, -⟩ := (statusRecordTransition_ok_iff _ _ _ _ _).mp htrans
    have hstale := hclaim (id, status) hlisted current hcurrent
      (takenFrom_of_canTransitionTo hstatus hcan)
    exact ⟨current, hcurrent, hstale.later (le_max_left _ _) fun _ => rfl⟩
  · have hrefused : (s.shared.1.orchestrator.setInvocationStatus (max s.shared.2 env.clock) id status
        runnerId).1 = .ok written := haccepted
    rw [heq] at hrefused
    cases hrefused
  · have hrefused : (s.shared.1.orchestrator.setInvocationStatus (max s.shared.2 env.clock) id status
        runnerId).1 = .ok written := haccepted
    rw [heq] at hrefused
    cases hrefused

/-! ### A claim that is taken away -/

/-- All operations of the system, without a restriction on their calls. -/
def passesOnly : Guard runnerPorts (MemRuntime × Timestamp) RunnerTask where
  start _ task := task.isBareRecovery = false
  call _ _ _ := True

instance (s : System runnerPorts (MemRuntime × Timestamp) RunnerTask) (task : RunnerTask) :
    Decidable (passesOnly.start s task) :=
  inferInstanceAs (Decidable (task.isBareRecovery = false))

instance (s : System runnerPorts (MemRuntime × Timestamp) RunnerTask) (i : Nat)
    (c : runnerPorts.Op) : Decidable (passesOnly.call s i c) :=
  inferInstanceAs (Decidable True)

/-- The same surroundings, long after every threshold. -/
def lateEnv : Env := { idleEnv with clock := 1000000000000 }

/-- `a` is submitted, a worker claims it and dies, and much later a pass has listed it and
is about to take it over. -/
def abandonedClaim : List (Label Env RunnerTask) :=
  .start (.operation (submitSerial "a")) :: Label.steps 0 6 idleEnv ++
    .start (.operation (.work .rust ⟨"w1"⟩)) :: Label.steps 1 7 idleEnv ++
    .start (.recoverStale ⟨"r1"⟩) :: Label.steps 2 9 lateEnv

/-- Before it does, a second pass recovers `a`, and a healthy worker claims it. -/
def freshClaim : List (Label Env RunnerTask) :=
  .start (.recoverStale ⟨"r2"⟩) :: Label.steps 3 14 lateEnv ++
    .start (.operation (.work .rust ⟨"w2"⟩)) :: Label.steps 4 7 lateEnv

/-- The write by which the first pass takes `a` over. -/
abbrev takeOverCall : runnerPorts.Op :=
  .inl (.setInvocationStatus ⟨"a"⟩ .pendingRecovery (some ⟨"r1"⟩))

/-- The first pass is about to take `a` over, and the status machine will accept it. -/
def AboutToTakeOver (s : System runnerPorts (MemRuntime × Timestamp) RunnerTask) : Prop :=
  (∃ t ∈ s.threads, t.next? = some takeOverCall) ∧
    ((timedRunners serialDeployment).exec lateEnv takeOverCall
      s.shared).1.isOk = true

instance : DecidablePred AboutToTakeOver :=
  fun _ => inferInstanceAs (Decidable (_ ∧ _))

theorem AboutToTakeOver.accepted {s : System runnerPorts (MemRuntime × Timestamp) RunnerTask}
    (h : AboutToTakeOver s) : ∃ t ∈ s.threads, t.next? = some takeOverCall ∧
      ∃ written, ((timedRunners serialDeployment).exec lateEnv
        takeOverCall s.shared).1 = .ok written := by
  obtain ⟨⟨t, ht, hnext⟩, hok⟩ := h
  refine ⟨t, ht, hnext, ?_⟩
  generalize ((timedRunners serialDeployment).exec lateEnv takeOverCall
    s.shared).1 = answer at hok
  cases answer with
  | ok written => exact ⟨written, rfl⟩
  | error e => cases hok

/-- A claim that nobody revives is stale when it is taken over. -/
theorem recovery_replaces_stale_abandonedClaim :
    ∃ s, Reachable (timedRunners serialDeployment)
        (nothingRevived serialDeployment.appConfig) (runnersStart 0) s ∧ AboutToTakeOver s ∧
      ∃ replaced, s.shared.1.orchestrator.statusRecords.lookup ⟨"a"⟩ = some replaced ∧
        Stale serialDeployment.appConfig s.shared.1.orchestrator
          (max s.shared.2 lateEnv.clock) replaced := by
  obtain ⟨s, hreach, hpass⟩ := Reachable.exists_of_run
    (timedRunners serialDeployment)
    (nothingRevived serialDeployment.appConfig) (runnersStart 0) abandonedClaim AboutToTakeOver
    (by decide +kernel) (by decide +kernel)
  obtain ⟨t, ht, hnext, written, haccepted⟩ := hpass.accepted
  exact ⟨s, hreach, hpass, recovery_replaces_stale rfl hreach ht hnext rfl haccepted⟩

/-- **A live owner loses its claim.**  The first pass decides by what it listed and by the
status, which is `pending` again: it takes `a` away from the worker that has just claimed
it. -/
theorem fresh_claim_taken_over :
    ∃ s t written, Reachable (timedRunners serialDeployment) passesOnly
        (runnersStart 0) s ∧ t ∈ s.threads ∧ t.next? = some takeOverCall ∧
      ((timedRunners serialDeployment).exec lateEnv takeOverCall
        s.shared).1 = .ok written ∧
      ¬ ∃ replaced, s.shared.1.orchestrator.statusRecords.lookup ⟨"a"⟩ = some replaced ∧
        Stale serialDeployment.appConfig s.shared.1.orchestrator
          (max s.shared.2 lateEnv.clock) replaced := by
  obtain ⟨s, hreach, hpass, hfresh⟩ := Reachable.exists_of_run
    (timedRunners serialDeployment) passesOnly (runnersStart 0)
    (abandonedClaim ++ freshClaim)
    (fun s => AboutToTakeOver s ∧
      ∀ replaced ∈ s.shared.1.orchestrator.statusRecords.lookup (⟨"a"⟩ : InvocationId),
        ¬ Stale serialDeployment.appConfig s.shared.1.orchestrator
          (max s.shared.2 lateEnv.clock) replaced)
    (by decide +kernel) (by decide +kernel)
  obtain ⟨t, ht, hnext, written, haccepted⟩ := hpass.accepted
  refine ⟨s, t, written, hreach, ht, hnext, haccepted, ?_⟩
  intro hstale
  obtain ⟨replaced, hreplaced, hstale⟩ := hstale
  exact hfresh replaced hreplaced hstale

end Rustvello.Mem
