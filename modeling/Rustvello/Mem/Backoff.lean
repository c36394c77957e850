import Rustvello.Mem.BrokerOrder
import Rustvello.Mem.Runners

/-!
# Durable backoff of retries

A delayed retry is an invocation in status `retry` whose only queue entry is invisible
until it is due.  Both ways to get work also offer invocations that somebody waits for, past
the broker: batch retrieval passes over those in `retry`, `claim_next` does not.

* `BackoffNote` — the clock, and until when each invocation has to rest;
* `Offers`, `offering` — what an operation was offered and may still hand out;
* `restsUndisturbed` — the runs in which nothing else offers a resting invocation;
* `backoff_respected` — in these runs no retrieval hands out a resting invocation.
-/

namespace Rustvello.Mem

open Concurrency Proto Rustvello.Core Orchestration

/-! ## Deadlines -/

/-- The last clock reading, and the instants before which an invocation has to rest. -/
structure BackoffNote where
  clock : Timestamp
  deadlines : HashMap InvocationId Timestamp := ∅

namespace BackoffNote

/-- The invocation is in backoff. -/
def Rests (n : BackoffNote) (id : InvocationId) : Prop :=
  ∃ deadline ∈ n.deadlines.lookup id, n.clock < deadline

instance (n : BackoffNote) (id : InvocationId) : Decidable (n.Rests id) :=
  inferInstanceAs (Decidable (∃ deadline ∈ n.deadlines.lookup id, n.clock < deadline))

/-- A delayed route sets the deadline, any other route lifts it. -/
def note (n : BackoffNote) (env : Env) : (c : runnerPorts.Op) → runnerPorts.Ret c → BackoffNote
  | .inl (.routeInvocationAfter id _ _ _ delayMs), .ok _ =>
      ⟨env.clock, n.deadlines.insert id (env.clock + MemBroker.nanoseconds delayMs)⟩
  | .inl (.routeInvocationWithOptions id _ _ _), .ok _ => ⟨env.clock, n.deadlines.erase id⟩
  | _, _ => ⟨env.clock, n.deadlines⟩

theorem note_clock (n : BackoffNote) (env : Env) (c : runnerPorts.Op) (r : runnerPorts.Ret c) :
    (n.note env c r).clock = env.clock := by
  unfold note
  split <;> rfl

end BackoffNote

/-- Deadlines are noted along a run, under a clock that does not go back. -/
def deadlineObserver : Observer runnerPorts Env BackoffNote where
  look n env := { env with clock := max n.clock env.clock }
  note := BackoffNote.note

/-! ## What an operation was offered -/

/-- The invocations that an operation was offered and may hand out. -/
structure Offers where
  task : RunnerTask
  held : List InvocationId := []

namespace Offers

/-- What an answer offers: waited-for invocations and queue entries.  Batch retrieval looks
at the status of the former first. -/
def offered : RunnerTask → (c : runnerPorts.Op) → runnerPorts.Ret c → List InvocationId
  | .operation (.work _ _), .inl (.getBlockingInvocations _), .ok ids => ids
  | .operation (.work _ _), .inl (.retrieveInvocationForLanguageFromQueue _ _), .ok (some id) =>
      [id]
  | .retrieve _ _, .inl (.getInvocationStatus id), .ok record =>
      if passedOver record.status then [] else [id]
  | .retrieve _ _, .inr (.retrieveInvocationFromQueue _), .ok (some id) => [id]
  | _, _, _ => []

/-- A worker claims what `claim_next` returned, and is done with the other offers. -/
def settles : RunnerTask → runnerPorts.Op → Bool
  | .operation (.work _ _), .inl (.setInvocationStatus _ .pending _) => true
  | _, _ => false

def next (c : runnerPorts.Op) (r : runnerPorts.Ret c) (g : Offers) : Offers :=
  { g with held := if settles g.task c then [] else offered g.task c r ++ g.held }

end Offers

/-- Only what was offered is claimed. -/
def offering : Discipline runnerPorts RunnerTask Offers where
  start task := { task := task }
  next := Offers.next
  pre
    | .inl (.setInvocationStatus id status _), g => status = .pending → id ∈ g.held
    | _, _ => True
  resp c _ r := RunnerTruthful c r

/-! ## Operations keep to it -/

/-- The operation still has these offers. -/
def Holds (task : RunnerTask) (ids : List InvocationId) (g : Offers) : Prop :=
  g.task = task ∧ ids ⊆ g.held

section Programs

variable {task : RunnerTask} {ids : List InvocationId} {d : Deployment} {α β : Type} {g : Offers}
  {id : InvocationId}

/-- Whatever is no claim takes no offer away. -/
theorem holds_next {c : runnerPorts.Op} (hc : WritesStatus (· ≠ .pending) c) (r : runnerPorts.Ret c)
    (h : Holds task ids g) :
    Holds task ids (offering.next c r g) := by
  have hsettles : Offers.settles g.task c = false := by
    unfold Offers.settles
    split
    · exact absurd rfl hc
    · rfl
  refine ⟨h.1, ?_⟩
  show ids ⊆ (Offers.next c r g).held
  simp only [Offers.next, hsettles, Bool.false_eq_true, if_false]
  exact List.Subset.trans h.2 (List.subset_append_right _ _)

theorem keeps_holds {c : runnerPorts.Op} (hc : WritesStatus (· ≠ .pending) c) :
    offering.Keeps (Holds task ids) c := by
  intro g hg
  refine ⟨?_, fun r _ => holds_next hc r hg⟩
  rcases c with c | c
  · cases c <;> first | trivial | skip
    case setInvocationStatus id status runnerId => exact fun hpending => absurd hpending hc
  · trivial

/-- A part of an operation that claims nothing. -/
theorem runner_keeps_offers {p : Runner α} (h : RunnerWritesOnly (· ≠ .pending) p)
    (hg : Holds task ids g) :
    offering.ObeysE p (fun _ => Holds task ids) (fun _ => Holds task ids) g :=
  Discipline.ObeysE.of_keeps
    (Prog.Uses.mono h (fun _ _ ⟨_, h⟩ => h) fun _ hc => keeps_holds hc.status) hg

theorem keeps_offers {p : Orch α} (h : WritesOnly (· ≠ .pending) p) (hg : Holds task ids g) :
    offering.left.ObeysE p (fun _ => Holds task ids) (fun _ => Holds task ids) g :=
  obeysE_lift.mp (runner_keeps_offers (RunnerWritesOnly.lift h) hg)

theorem dispatches_keep {p : Orch α} (h : Prog.UsesE Truthful Dispatches p)
    (hg : Holds task ids g) :
    offering.left.ObeysE p (fun _ => Holds task ids) (fun _ => Holds task ids) g :=
  keeps_offers (DenialTargets.writesOnly ⟨by decide, by decide, by decide⟩ h) hg

/-- More offers. -/
theorem Holds.cons (h : Holds task ids g) (hid : id ∈ g.held) :
    Holds task (id :: ids) g :=
  ⟨h.1, List.cons_subset.mpr ⟨hid, h.2⟩⟩

/-- What is returned was offered. -/
def Returns (task : RunnerTask) (found : Option InvocationId) (g : Offers) : Prop :=
  g.task = task ∧ ∀ id ∈ found, id ∈ g.held

theorem Holds.tail (h : Holds task (id :: ids) g) :
    Holds task ids g :=
  ⟨h.1, fun _ hx => h.2 (List.mem_cons_of_mem _ hx)⟩

theorem Holds.returns (h : Holds task (id :: ids) g) :
    Returns task (some id) g := by
  refine ⟨h.1, fun x hx => ?_⟩
  obtain rfl : id = x := Option.some.inj hx
  exact h.2 List.mem_cons_self

/-- Calls that neither offer nor claim. -/
theorem offering_quiet {c : PortCall}
    (hc : ∀ task, Offers.settles task (.inl c) = false ∧ ∀ r, Offers.offered task (.inl c) r = [])
    (hpre : ∀ g, offering.left.pre c g) : offering.left.Quiet c := by
  intro g
  refine ⟨hpre g, fun r => ?_⟩
  show Offers.next (.inl c) r g = g
  simp [Offers.next, (hc g.task).1, (hc g.task).2 r]

theorem offering_writesAlone : WritesAlone offering.left := by
  have hquiet : ∀ {c : PortCall}, (match c with
      | .getInvocation _ | .getCall _ | .reportStatusChange _ _ _ _ | .reportResult _ _ _ _
      | .reportFailure _ _ _ _ _ | .releaseWaiters _ | .scheduleAutoPurge _ | .addHistory _ => true
      | _ => false) = true → offering.left.Quiet c := by
    intro c hc
    cases c <;> cases hc
    all_goals
      refine offering_quiet (fun task => ?_) fun _ => trivial
      cases task <;> first | exact ⟨rfl, fun _ => rfl⟩ | skip
      rename_i op
      cases op <;> exact ⟨rfl, fun _ => rfl⟩
  exact ⟨⟨fun _ => hquiet rfl, fun _ => hquiet rfl⟩,
    ⟨fun _ _ _ _ => hquiet rfl, fun _ _ _ _ => hquiet rfl, fun _ _ _ _ _ => hquiet rfl⟩,
    fun _ => hquiet rfl, fun _ => hquiet rfl, fun _ => hquiet rfl⟩

/-! ### Workers -/

theorem admitBlocking_returns (hd : d.publication = false) (language : TaskLanguage)
    (worker : RunnerId) (hg : Holds task ids g) :
    offering.left.ObeysE (admitBlocking d language worker ids)
      (fun found g' => Returns task found g' ∧ Holds task [] g') (fun _ _ => True) g := by
  induction ids generalizing g with
  | nil => exact ⟨⟨hg.1, fun id hid => by cases hid⟩, hg⟩
  | cons id rest ih =>
      have hempty : ∀ {g : Offers}, Holds task (id :: rest) g → Holds task [] g := fun h =>
        ⟨h.1, List.nil_subset _⟩
      unfold admitBlocking
      have hmatch := dispatches_keep (lookups_dispatches.candidateMatchesLanguage id language) hg
      refine Discipline.obeysE_bind.mpr (hmatch.mono ?_ fun _ _ _ => trivial)
      intro isMatch g' hg'
      cases isMatch with
      | false => exact ih hg'.tail
      | true =>
          have hadmitted := dispatches_keep (admitCandidate_dispatches hd worker id) hg'
          refine Discipline.obeysE_bind.mpr (hadmitted.mono ?_ fun _ _ _ => trivial)
          intro admitted g'' hg''
          cases admitted with
          | false => exact ih hg''.tail
          | true => exact ⟨hg''.returns, hempty hg''⟩

theorem retrieveFromQueues_returns (language taskLanguage : TaskLanguage) (worker : RunnerId)
    (queues : List String) (hg : g.task = .operation (.work taskLanguage worker)) :
    offering.left.ObeysE (retrieveFromQueues language queues)
      (Returns (.operation (.work taskLanguage worker))) (fun _ _ => True) g := by
  induction queues generalizing g with
  | nil => exact ⟨hg, fun id hid => by cases hid⟩
  | cons queue rest ih =>
      unfold retrieveFromQueues
      refine obeysE_port_bind.mpr ⟨trivial, ?_, fun _ _ => trivial⟩
      rintro (_ | id) _
      · exact ih hg
      · have hheld : id ∈ (offering.left.next (.retrieveInvocationForLanguageFromQueue language
            queue) (.ok (some id)) g).held := by
          obtain ⟨gtask, held⟩ := g
          obtain rfl : gtask = _ := hg
          exact List.mem_cons_self
        refine ⟨hg, fun x hx => ?_⟩
        obtain rfl : id = x := Option.some.inj hx
        exact hheld

theorem claimFromBroker_returns (hd : d.publication = false) (language taskLanguage : TaskLanguage)
    (worker runner : RunnerId) (n : Nat) (hg : g.task = .operation (.work taskLanguage worker)) :
    offering.left.ObeysE (claimFromBroker d language runner n)
      (Returns (.operation (.work taskLanguage worker))) (fun _ _ => True) g := by
  induction n generalizing g with
  | zero => exact ⟨hg, fun id hid => by cases hid⟩
  | succ n ih =>
      unfold claimFromBroker
      refine obeysE_port_bind.mpr ⟨trivial, fun queues _ => ?_, fun _ _ => trivial⟩
      refine Discipline.ObeysE.bind
        (retrieveFromQueues_returns language taskLanguage worker queues ?_) ?_
      · exact hg
      rintro (_ | id) g' ⟨htask, hfound⟩
      · exact ⟨htask, fun id hid => by cases hid⟩
      · have hone : Holds (.operation (.work taskLanguage worker)) [id] g' :=
          Holds.cons ⟨htask, List.nil_subset _⟩ (hfound id rfl)
        have hadmitted := dispatches_keep (admitCandidate_dispatches hd runner id) hone
        refine Discipline.obeysE_bind.mpr (hadmitted.mono ?_ fun _ _ _ => trivial)
        intro admitted g'' hg''
        cases admitted with
        | false => exact ih hg''.1
        | true => exact hg''.returns

/-- `claim_next` returns what it was offered. -/
theorem claimNext_returns (hd : d.publication = false) (language : TaskLanguage) (worker : RunnerId)
    (hg : g.task = .operation (.work language worker)) :
    offering.left.ObeysE (claimNext d language worker)
      (Returns (.operation (.work language worker))) (fun _ _ => True) g := by
  unfold claimNext
  refine obeysE_attempt_bind.mpr (obeysE_port.mpr ⟨trivial, ?_⟩)
  rintro (e | blocking) _
  · exact claimFromBroker_returns hd language language worker worker _ hg
  · have hlisted : Holds (.operation (.work language worker)) blocking (offering.left.next
        (.getBlockingInvocations maxBlockingCandidates) (.ok blocking) g) := by
      obtain ⟨gtask, held⟩ := g
      obtain rfl : gtask = _ := hg
      exact ⟨rfl, List.subset_append_left _ _⟩
    refine Discipline.ObeysE.bind (admitBlocking_returns hd language worker hlisted) ?_
    rintro (_ | id) g' ⟨hreturns, hempty⟩
    · exact claimFromBroker_returns hd language language worker worker _ hempty.1
    · exact hreturns

/-- A worker claims what it was offered. -/
theorem workerRound_obeys_offering (hd : d.publication = false) (language : TaskLanguage)
    (worker : RunnerId) :
    offering.left.ObeysE (workerRound d language worker) (fun _ _ => True) (fun _ _ => True)
      { task := .operation (.work language worker) } := by
  unfold workerRound
  refine Discipline.ObeysE.bind (claimNext_returns hd language worker rfl) ?_
  rintro (_ | id) g ⟨htask, hfound⟩
  · trivial
  · have hrelease : WritesOnly (· ≠ .pending) (releaseNontransactionalConcurrencySlot d id) :=
      writesOnly_of_updates (releaseSlot_updates hd id worker)
    have hrest : ∀ {α : Type} {p : Orch α} {g : Offers}, WritesOnly (· ≠ .pending) p →
        offering.left.ObeysE p (fun _ _ => True) (fun _ _ => True) g := by
      intro α p g hp
      have hholds : Holds g.task [] g := ⟨rfl, List.nil_subset _⟩
      exact (keeps_offers hp hholds).mono
        (fun _ _ _ => trivial) fun _ _ _ => trivial
    refine obeysE_attempt_bind.mpr ?_
    refine (offering_writesAlone.setInvocationStatus_obeys hd id .pending worker
      fun _ => hfound id rfl).mono ?_ ?_
    · intro _ g' _
      exact hrest (writesOnly_of_actsOn (executeClaimed_actsOn hd id worker
        ⟨by decide, by decide, by decide, by decide⟩))
    · intro e g' _
      dsimp only
      split
      · exact hrest hrelease
      · exact hrest (Prog.usesE_bind (usesE_attempt hrelease) fun _ => usesE_throw _)

/-! ### Batch retrieval -/

section Retrieval

variable {maxNum : Nat} {runnerId : RunnerId} {result : List InvocationId}

/-- Claim a candidate that was offered: the result was offered. -/
theorem tryTransitionToPending_holds (id : InvocationId) {g : Offers}
    (hg : Holds (.retrieve maxNum runnerId) (id :: result) g) :
    offering.ObeysE (lift (tryTransitionToPending d id runnerId result))
      (fun result' => Holds (.retrieve maxNum runnerId) result') (fun _ _ => True) g := by
  have hnext : ∀ r, Holds (.retrieve maxNum runnerId) (id :: result)
      (offering.next (.inl (.setInvocationStatus id .pending (some runnerId))) r g) := by
    intro r
    obtain ⟨gtask, held⟩ := g
    obtain rfl : gtask = _ := hg.1
    exact hg
  refine obeysE_lift.mpr ?_
  unfold tryTransitionToPending
  refine obeysE_attempt_bind.mpr (obeysE_port.mpr ⟨fun _ => hg.2 List.mem_cons_self, ?_⟩)
  rintro (e | record) _
  · simp only [Discipline.outcome_error]
    split
    · exact (hnext _).tail
    · trivial
  · have hclaim := keeps_offers (recordClaim_writesOnly (d := d) id runnerId record)
      (hnext (.ok record))
    refine Discipline.obeysE_bind.mpr (hclaim.mono ?_ fun _ _ _ => trivial)
    intro _ g' hg'
    refine ⟨hg'.1, ?_⟩
    intro x hx
    rcases List.mem_append.mp hx with hx | hx
    · exact hg'.2 (List.mem_cons_of_mem _ hx)
    · obtain rfl := List.mem_singleton.mp hx
      exact hg'.2 List.mem_cons_self

theorem retrieveBlocking_holds (ids : List InvocationId) {g : Offers}
    (hg : Holds (.retrieve maxNum runnerId) result g) :
    offering.ObeysE (retrieveBlocking d maxNum runnerId result ids)
      (fun result' => Holds (.retrieve maxNum runnerId) result') (fun _ _ => True) g := by
  induction ids generalizing result g with
  | nil => exact hg
  | cons id rest ih =>
      unfold retrieveBlocking
      split
      · exact hg
      · refine Discipline.obeysE_bind.mpr (obeysE_lift.mpr ?_)
        refine (Discipline.obeysE_lift (p := (port (.getInvocationStatus id)).run)).mpr ?_
        refine ⟨trivial, ?_⟩
        rintro (e | record) _
        · exact ih (holds_next (c := .inl (.getInvocationStatus id)) trivial _ hg)
        · have hread : Holds (.retrieve maxNum runnerId) result (offering.left.next
              (.getInvocationStatus id) (.ok record) g) :=
            holds_next (c := .inl (.getInvocationStatus id)) trivial _ hg
          show offering.ObeysE (if passedOver record.status then _ else _) _ _ _
          split
          · exact ih hread
          · rename_i hstatus
            have hoffered : id ∈ (offering.left.next (.getInvocationStatus id) (.ok record)
                g).held := by
              obtain ⟨gtask, held⟩ := g
              obtain rfl : gtask = _ := hg.1
              show id ∈ (if passedOver record.status then [] else [id]) ++ held
              rw [if_neg hstatus]
              exact List.mem_cons_self
            have hcheck := runner_keeps_offers
              (checkCcForInvocation_writesOnly (d := d) id) (hread.cons hoffered)
            refine Discipline.obeysE_bind.mpr (hcheck.mono ?_ fun _ _ _ => trivial)
            intro cleared g' hg'
            cases cleared with
            | false => exact ih hg'.tail
            | true =>
                refine Discipline.ObeysE.bind (tryTransitionToPending_holds id hg') ?_
                intro result' g'' hg''
                exact ih hg''

theorem dequeueFirst_holds (queues : List String) {g : Offers}
    (hg : Holds (.retrieve maxNum runnerId) result g) :
    offering.ObeysE (dequeueFirst queues)
      (fun found g' => Holds (.retrieve maxNum runnerId) (found.toList ++ result) g')
      (fun _ _ => True) g := by
  induction queues generalizing g with
  | nil => exact hg
  | cons queue rest ih =>
      unfold dequeueFirst
      refine obeysE_runnerPort_bind.mpr ⟨trivial, ?_, fun _ _ => trivial⟩
      rintro (_ | id) _
      · exact ih (holds_next (c := .inr (.retrieveInvocationFromQueue queue)) trivial _ hg)
      · obtain ⟨gtask, held⟩ := g
        obtain rfl : gtask = _ := hg.1
        exact ⟨rfl, List.cons_subset_cons _ hg.2⟩

theorem retrieveFromBroker_holds (hd : d.publication = false) (queues : List String) (n : Nat)
    (rerouteIds : List InvocationId) {g : Offers}
    (hg : Holds (.retrieve maxNum runnerId) result g) :
    offering.ObeysE (retrieveFromBroker d maxNum runnerId queues n result rerouteIds)
      (fun retrieved => Holds (.retrieve maxNum runnerId) retrieved.1) (fun _ _ => True) g := by
  induction n generalizing result rerouteIds g with
  | zero => exact hg
  | succ n ih =>
      unfold retrieveFromBroker
      split
      · exact hg
      · refine Discipline.ObeysE.bind (dequeueFirst_holds queues hg) ?_
        rintro (_ | id) g' hg'
        · exact hg'
        · have hg' : Holds (.retrieve maxNum runnerId) (id :: result) g' := hg'
          show offering.ObeysE (if id ∈ result then _ else _) _ _ _
          split
          · exact ih _ hg'.tail
          · have hread := keeps_offers (usesE_attempt (usesE_port (A := Truthful)
              (P := fun c => Writes (· ≠ .pending) (.inl c)) (c := .getInvocationStatus id)
              trivial)) hg'
            refine Discipline.obeysE_bind.mpr (obeysE_lift.mpr
              (hread.mono ?_ fun _ _ _ => trivial))
            rintro (e | record) g'' hg''
            · exact ih _ hg''.tail
            · show offering.ObeysE (if record.status.isAvailableForRun then _ else _) _ _ _
              split
              · have hcheck := runner_keeps_offers
                  (checkCcForInvocation_writesOnly (d := d) id) hg''
                refine Discipline.obeysE_bind.mpr (hcheck.mono ?_ fun _ _ _ => trivial)
                intro cleared g'' hg''
                cases cleared with
                | false =>
                    have hdeny := keeps_offers (denyRetrieved_writesOnly (d := d) hd
                      ⟨by decide, by decide, by decide⟩ id runnerId rerouteIds) hg''.tail
                    refine Discipline.obeysE_bind.mpr (obeysE_lift.mpr
                      (hdeny.mono ?_ fun _ _ _ => trivial))
                    intro rerouteIds' g'' hg''
                    exact ih _ hg''
                | true =>
                    refine Discipline.ObeysE.bind (tryTransitionToPending_holds id hg'') ?_
                    intro result' g'' hg''
                    exact ih _ hg''
              · exact ih _ hg''.tail

/-- `get_invocations_to_run` returns what it was offered. -/
theorem retrieveToRun_holds (hd : d.publication = false) (maxNum : Nat) (runnerId : RunnerId) :
    offering.ObeysE (retrieveToRun d maxNum runnerId)
      (fun ids => Holds (.retrieve maxNum runnerId) ids) (fun _ _ => True)
      { task := .retrieve maxNum runnerId } := by
  have hrest : ∀ queues result g, Holds (.retrieve maxNum runnerId) result g →
      offering.ObeysE (do
        let retrieved ← retrieveFromBroker d maxNum runnerId queues (maxNum * 2 + 8) result []
        lift (rerouteDenied d runnerId retrieved.2)
        pure retrieved.1 : Runner (List InvocationId))
        (fun ids => Holds (.retrieve maxNum runnerId) ids) (fun _ _ => True) g := by
    intro queues result g hg
    refine Discipline.ObeysE.bind (retrieveFromBroker_holds hd queues _ [] hg) ?_
    intro retrieved g' hg'
    have hreroute := keeps_offers (rerouteDenied_writesOnly (d := d) (by decide) runnerId
      retrieved.2) hg'
    refine Discipline.obeysE_bind.mpr (obeysE_lift.mpr (hreroute.mono ?_ fun _ _ _ => trivial))
    intro _ g'' hg''
    exact hg''
  have hstart : Holds (.retrieve maxNum runnerId) [] { task := .retrieve maxNum runnerId } :=
    ⟨rfl, List.nil_subset _⟩
  unfold retrieveToRun
  have hqueues := keeps_offers (usesE_port (A := Truthful)
    (P := fun c => Writes (· ≠ .pending) (.inl c)) (c := .queueNamesForRetrieval d.appConfig)
    trivial) hstart
  refine Discipline.obeysE_bind.mpr (obeysE_lift.mpr (hqueues.mono ?_ fun _ _ _ => trivial))
  intro queues g hg
  unfold getInvocationsToRun
  have hblocking := keeps_offers (usesE_attempt (usesE_port (A := Truthful)
    (P := fun c => Writes (· ≠ .pending) (.inl c)) (c := .getBlockingInvocations maxNum)
    trivial)) hg
  refine Discipline.obeysE_bind.mpr (obeysE_lift.mpr (hblocking.mono ?_ fun _ _ _ => trivial))
  rintro (e | blocking) g' hg'
  · exact hrest queues [] g' hg'
  · exact Discipline.ObeysE.bind (retrieveBlocking_holds blocking hg') fun result g'' hg'' =>
      hrest queues result g'' hg''

end Retrieval

theorem program_obeys_offering (hd : d.publication = false) {task : RunnerTask}
    (htask : task.isBareRecovery = false) :
    offering.Obeys (task.program d) (fun _ _ => True) { task := task } := by
  have hother : (∀ status ∈ task.writtenStatuses, status ≠ .pending) →
      offering.Obeys (task.program d) (fun _ _ => True) { task := task } := by
    intro hwritten
    have huses := RunnerTask.program_asks hd task
    refine (Discipline.Obeys.of_keeps (K := Holds task [])
      (Prog.Uses.mono huses (fun _ _ ⟨_, h⟩ => h) fun c hc => keeps_holds ?_)
      ⟨rfl, List.nil_subset _⟩).mono fun _ _ _ => trivial
    rcases c with c | c
    · cases c <;> first | trivial | exact hwritten _ hc
    · trivial
  cases task with
  | operation op =>
      cases op with
      | work language worker =>
          have hround := workerRound_obeys_offering hd language worker
          refine (Discipline.obeys_inl _).mpr (Discipline.Obeys.toUnit ?_)
          exact Discipline.Obeys.mono hround fun _ _ _ => trivial
      | recover runnerId id status => cases htask
      | _ => exact hother (by simp [RunnerTask.writtenStatuses])
  | retrieve maxNum runnerId =>
      have hretrieve := retrieveToRun_holds hd maxNum runnerId
      exact Discipline.Obeys.toUnit (Discipline.Obeys.mono hretrieve fun _ _ _ => trivial)
  | _ => exact hother (by simp [RunnerTask.writtenStatuses])

end Programs

theorem book_task_offering (t : Thread runnerPorts RunnerTask) :
    (offering.book t).task = t.task := by
  have hread : ∀ log, (offering.read t.task log).task = t.task := by
    intro log
    induction log with
    | nil => rfl
    | cons e log ih => exact ih
  exact hread t.log

/-! ## Queue entries and deadlines -/

namespace MemBroker

variable {now : Timestamp} {b : MemBroker} {queueName : String}

/-- Whatever a retrieval hands out is due. -/
theorem due_of_select {selected : QueuedInvocation → Bool}
    (hselected : ∀ item, selected item = true → item.isDue now = true)
    {found : Nat × QueuedInvocation} (h : selectIndex selected b.queue = some found) :
    found.2 ∈ b.queue ∧ found.2.isDue now = true := by
  obtain ⟨before, after, hsplit, -, hsel, -, -⟩ := selectIndex_spec h
  refine ⟨?_, hselected _ hsel⟩
  rw [hsplit]
  exact List.mem_append_right _ List.mem_cons_self

theorem due_of_retrieveForLanguage {language : TaskLanguage} {id : InvocationId}
    (h : (b.retrieveInvocationForLanguageFromQueue now language queueName).1 = .ok (some id)) :
    ∃ item ∈ b.queue, item.invocationId = id ∧ item.isDue now = true := by
  unfold retrieveInvocationForLanguageFromQueue at h
  split at h
  · cases h
  · split at h
    · cases h
    · rename_i found hfound
      cases h
      have hdue : found.2 ∈ b.queue ∧ found.2.isDue now = true :=
        due_of_select (fun item hitem => by simp_all) hfound
      exact ⟨found.2, hdue.1, rfl, hdue.2⟩

theorem due_of_retrieve {taskId : Option TaskId} {id : InvocationId}
    (h : (b.retrieveInvocationFromQueue now queueName taskId).1 = .ok (some id)) :
    ∃ item ∈ b.queue, item.invocationId = id ∧ item.isDue now = true := by
  unfold retrieveInvocationFromQueue at h
  split at h
  · cases h
  · split at h
    · cases h
    · rename_i found hfound
      cases h
      have hdue : found.2 ∈ b.queue ∧ found.2.isDue now = true :=
        due_of_select (fun item hitem => by simp_all) hfound
      exact ⟨found.2, hdue.1, rfl, hdue.2⟩

theorem mem_of_retrieveForLanguage {language : TaskLanguage} {item : QueuedInvocation}
    (h : item ∈ (b.retrieveInvocationForLanguageFromQueue now language queueName).2.queue) :
    item ∈ b.queue := by
  unfold retrieveInvocationForLanguageFromQueue at h
  split at h
  · exact h
  · split at h
    · exact h
    · exact List.mem_of_mem_eraseIdx h

theorem mem_of_retrieve {taskId : Option TaskId} {item : QueuedInvocation}
    (h : item ∈ (b.retrieveInvocationFromQueue now queueName taskId).2.queue) :
    item ∈ b.queue := by
  unfold retrieveInvocationFromQueue at h
  split at h
  · exact h
  · split at h
    · exact h
    · exact List.mem_of_mem_eraseIdx h

end MemBroker

/-- **Deadlines and queue entries move together.**  A deadline is set with the only new
entry of its invocation, or it was there before and the invocation got no new entry. -/
theorem deadline_cases (n : BackoffNote) (env : Env) (c : runnerPorts.Op) (s : MemRuntime)
    {id : InvocationId} {deadline : Timestamp}
    (h : (n.note env c (MemRuntime.execRunner env c s).1).deadlines.lookup id = some deadline) :
    (∃ taskId queue priority delayMs,
      c = .inl (.routeInvocationAfter id taskId queue priority delayMs) ∧
      deadline = env.clock + MemBroker.nanoseconds delayMs ∧
      (MemRuntime.execRunner env c s).2.broker.queue =
        s.broker.queue ++ [⟨id, taskId, queue, priority, some deadline⟩]) ∨
    (n.deadlines.lookup id = some deadline ∧
      ∀ item ∈ (MemRuntime.execRunner env c s).2.broker.queue, item.invocationId = id →
        item ∈ s.broker.queue) := by
  rcases c with c | c
  · cases c
    case routeInvocationWithOptions x taskId queue priority =>
        right
        cases hvalid : validateRouting queue priority with
        | error e =>
            simp only [MemRuntime.execRunner, MemRuntime.exec,
              MemBroker.routeInvocationWithOptions, hvalid] at h ⊢
            exact ⟨h, fun item hitem _ => hitem⟩
        | ok u =>
            simp only [MemRuntime.execRunner, MemRuntime.exec,
              MemBroker.routeInvocationWithOptions, hvalid, MemBroker.push] at h ⊢
            have h : (n.deadlines.erase x).lookup id = some deadline := h
            have hne : id ≠ x := by
              rintro rfl
              simp at h
            rw [AList.lookup_erase_ne hne] at h
            refine ⟨h, fun item hitem hid => ?_⟩
            rcases List.mem_append.mp hitem with hitem | hitem
            · exact hitem
            · obtain rfl := List.mem_singleton.mp hitem
              exact absurd hid.symm hne
    case routeInvocationAfter x taskId queue priority delayMs =>
        cases hvalid : validateRouting queue priority with
        | error e =>
            simp only [MemRuntime.execRunner, MemRuntime.exec,
              MemBroker.routeInvocationAfter, hvalid] at h ⊢
            exact .inr ⟨h, fun item hitem _ => hitem⟩
        | ok u =>
            simp only [MemRuntime.execRunner, MemRuntime.exec,
              MemBroker.routeInvocationAfter, hvalid, MemBroker.push] at h ⊢
            have h : (n.deadlines.insert x (env.clock + MemBroker.nanoseconds delayMs)).lookup id =
              some deadline := h
            by_cases hid : id = x
            · subst hid
              rw [AList.lookup_insert] at h
              obtain rfl := Option.some.inj h
              exact .inl ⟨taskId, queue, priority, delayMs, rfl, rfl, rfl⟩
            · rw [AList.lookup_insert_ne hid] at h
              refine .inr ⟨h, fun item hitem hitemid => ?_⟩
              rcases List.mem_append.mp hitem with hitem | hitem
              · exact hitem
              · obtain rfl := List.mem_singleton.mp hitem
                exact absurd hitemid.symm hid
    case retrieveInvocationForLanguageFromQueue language queue =>
        refine .inr ⟨?_, fun item hitem _ => MemBroker.mem_of_retrieveForLanguage hitem⟩
        exact h
    all_goals exact .inr ⟨h, fun item hitem _ => hitem⟩
  · cases c
    case retrieveInvocationFromQueue queue =>
        exact .inr ⟨h, fun item hitem _ => MemBroker.mem_of_retrieve hitem⟩
    all_goals exact .inr ⟨h, fun item hitem _ => hitem⟩

/-! ## Runs in which a resting invocation is left alone -/

/-- The invocation waits for its retry, or has ended meanwhile. -/
def OrchestratorState.AtRest (o : OrchestratorState) (id : InvocationId) : Prop :=
  ∃ status ∈ o.statusOf id, status = .retry ∨ status.isTerminal = true

instance (o : OrchestratorState) (id : InvocationId) : Decidable (o.AtRest id) :=
  inferInstanceAs (Decidable (∃ status ∈ o.statusOf id, status = .retry ∨ status.isTerminal = true))

/-- The operation calls `claim_next`. -/
def RunnerTask.claimsNext : RunnerTask → Bool
  | .operation (.work _ _) => true
  | _ => false

/-- What the calls of a run have to leave alone.  When a retry is delayed, the invocation
waits for it, has no other queue entry, and is on offer to nobody; while it rests, it is not
registered anew, and `claim_next` does not find it among the invocations that somebody waits
for. -/
def LeavesAlone (s : System runnerPorts (MemRuntime × BackoffNote) RunnerTask) (i : Nat) :
    runnerPorts.Op → Prop
  | .inl (.routeInvocationAfter id _ _ _ delayMs) => 0 < delayMs →
      s.shared.1.orchestrator.AtRest id ∧ ¬ s.shared.1.broker.Queued id ∧
        ∀ t ∈ s.threads, t.next? ≠ none → id ∉ (offering.book t).held
  | .inl (.getBlockingInvocations _) =>
      (s.threads[i]?).any (fun t => t.task.claimsNext) = true →
        ∀ id ∈ s.shared.2.deadlines.keys, s.shared.2.Rests id →
          s.shared.1.orchestrator.isBlockingCandidate id = false
  | .inl (.registerInvocationWithId id _ _) => ¬ s.shared.2.Rests id
  | _ => True

def restsUndisturbed : Guard runnerPorts (MemRuntime × BackoffNote) RunnerTask where
  start _ task := task.isBareRecovery = false
  call := LeavesAlone

instance (s : System runnerPorts (MemRuntime × BackoffNote) RunnerTask) (i : Nat)
    (c : runnerPorts.Op) : Decidable (LeavesAlone s i c) := by
  unfold LeavesAlone
  split <;> infer_instance

instance (s : System runnerPorts (MemRuntime × BackoffNote) RunnerTask) (task : RunnerTask) :
    Decidable (restsUndisturbed.start s task) :=
  inferInstanceAs (Decidable (task.isBareRecovery = false))

instance (s : System runnerPorts (MemRuntime × BackoffNote) RunnerTask) (i : Nat)
    (c : runnerPorts.Op) : Decidable (restsUndisturbed.call s i c) :=
  inferInstanceAs (Decidable (LeavesAlone s i c))

/-- A resting invocation waits for its retry, and none of its queue entries is due before
its deadline. -/
def RestsInQueue (s : MemRuntime × BackoffNote) : Prop :=
  ∀ id deadline, s.2.deadlines.lookup id = some deadline → s.2.clock < deadline →
    s.1.orchestrator.AtRest id ∧
      ∀ item ∈ s.1.broker.queue, item.invocationId = id →
        ∃ due, item.notBefore = some due ∧ deadline ≤ due

section Steps

variable {s : MemRuntime} {n : BackoffNote}

theorem passedOver_of_atRest {status : InvocationStatus}
    (h : status = .retry ∨ status.isTerminal = true) : passedOver status = true := by
  revert status
  decide

theorem atRest_of_canTransitionTo {status target : InvocationStatus}
    (h : status = .retry ∨ status.isTerminal = true) (hcan : status.canTransitionTo target = true)
    (htarget : target ≠ .pending) : target = .retry ∨ target.isTerminal = true := by
  revert status target
  decide

/-- Only a claim or a new registration wakes an invocation. -/
theorem AtRest.exec {id : InvocationId} (h : s.orchestrator.AtRest id) (env : Env)
    {c : runnerPorts.Op}
    (hclaim : ∀ runnerId, c ≠ .inl (.setInvocationStatus id .pending runnerId))
    (hregister : ∀ call runnerId, c ≠ .inl (.registerInvocationWithId id call runnerId)) :
    (MemRuntime.execRunner env c s).2.orchestrator.AtRest id := by
  obtain ⟨status, hstatus, hrest⟩ := h
  obtain hrecords | ⟨x, call, runnerId, rfl, hrecords⟩ |
    ⟨x, target, runnerId, current, record, rfl, hcurrent, htrans, hrecords⟩ :=
    MemRuntime.execRunner_statusRecords env c s
  · refine ⟨status, ?_, hrest⟩
    simp only [OrchestratorState.statusOf, hrecords]
    exact hstatus
  · have hne : id ≠ x := by
      rintro rfl
      exact hregister call runnerId rfl
    refine ⟨status, ?_, hrest⟩
    simp only [OrchestratorState.statusOf, hrecords, AList.lookup_insert_ne hne]
    exact hstatus
  · by_cases hid : id = x
    · subst hid
      obtain ⟨hcan, -, rfl⟩ := (statusRecordTransition_ok_iff _ _ _ _ _).mp htrans
      have hcurrentStatus : current.status = status := by
        simp only [OrchestratorState.statusOf, hcurrent, Option.map_some, Option.mem_def,
          Option.some.injEq] at hstatus
        exact hstatus
      have htarget : target ≠ .pending := fun heq => hclaim runnerId (by rw [heq])
      refine ⟨target, ?_, ?_⟩
      · simp only [OrchestratorState.statusOf, hrecords, AList.lookup_insert]
        rfl
      · rw [hcurrentStatus] at hcan
        exact atRest_of_canTransitionTo hrest hcan htarget
    · refine ⟨status, ?_, hrest⟩
      simp only [OrchestratorState.statusOf, hrecords, AList.lookup_insert_ne hid]
      exact hstatus

theorem pos_of_delayed {now : Int} {delayMs : Nat} (h : now < now + MemBroker.nanoseconds delayMs) :
    0 < delayMs := by
  rcases Nat.eq_zero_or_pos delayMs with rfl | hpos
  · simp [MemBroker.nanoseconds] at h
  · exact hpos

/-- What rests after a call had its deadline before it, unless its retry was delayed just
now. -/
theorem rests_before {env : Env} {c : runnerPorts.Op} {id : InvocationId}
    (h : (n.note env c (MemRuntime.execRunner env c s).1).Rests id) :
    (∃ deadline, n.deadlines.lookup id = some deadline ∧ env.clock < deadline) ∨
      ∃ taskId queue priority delayMs, 0 < delayMs ∧
        c = .inl (.routeInvocationAfter id taskId queue priority delayMs) := by
  obtain ⟨deadline, hdeadline, hrests⟩ := h
  have hlt : env.clock < deadline := by rwa [BackoffNote.note_clock] at hrests
  obtain ⟨taskId, queue, priority, delayMs, rfl, rfl, -⟩ | ⟨hold, -⟩ :=
    deadline_cases n env c s hdeadline
  · exact .inr ⟨taskId, queue, priority, delayMs, pos_of_delayed hlt, rfl⟩
  · exact .inl ⟨deadline, hold, hlt⟩

end Steps

/-! ## Every run -/

/-- The runners, with the deadlines of delayed retries. -/
abbrev restingRunners (d : Deployment) :
    Machine runnerPorts (MemRuntime × BackoffNote) Env RunnerTask :=
  (runnerMachine d).observed deadlineObserver

/-- The in-memory backends before the first operation, at some instant. -/
def restingStart (now : Timestamp) : System runnerPorts (MemRuntime × BackoffNote) RunnerTask :=
  ⟨({}, ⟨now, ∅⟩), []⟩

section Call

variable {s : System runnerPorts (MemRuntime × BackoffNote) RunnerTask} {i : Nat}
  {t : Thread runnerPorts RunnerTask} {c : runnerPorts.Op} {env : Env}

/-- A call keeps resting invocations in their queue. -/
theorem restsInQueue_exec (hallowed : LeavesAlone s i c) (hpre : offering.pre c (offering.book t))
    (hinv : RestsInQueue s.shared) (hclaim : ∀ id ∈ (offering.book t).held, ¬ s.shared.2.Rests id)
    (hclock : s.shared.2.clock ≤ env.clock) :
    RestsInQueue ((MemRuntime.execRunner env c s.shared.1).2,
      s.shared.2.note env c (MemRuntime.execRunner env c s.shared.1).1) := by
  intro id deadline hdeadline hrests
  have hlt : env.clock < deadline := by rwa [BackoffNote.note_clock] at hrests
  obtain ⟨taskId, queue, priority, delayMs, rfl, rfl, hqueue⟩ | ⟨hold, hqueue⟩ :=
    deadline_cases s.shared.2 env c s.shared.1 hdeadline
  · -- the retry was delayed just now: there is no other entry
    obtain ⟨hrest, hempty, -⟩ := hallowed (pos_of_delayed hlt)
    refine ⟨AtRest.exec hrest env (by simp) (by simp), ?_⟩
    intro item hitem hid
    rw [hqueue] at hitem
    rcases List.mem_append.mp hitem with hitem | hitem
    · exact absurd ⟨item, hitem, hid⟩ hempty
    · obtain rfl := List.mem_singleton.mp hitem
      exact ⟨_, rfl, le_refl _⟩
  · have hbefore : s.shared.2.clock < deadline := lt_of_le_of_lt hclock hlt
    have hresting : s.shared.2.Rests id := ⟨deadline, hold, hbefore⟩
    obtain ⟨hrest, hentries⟩ := hinv id deadline hold hbefore
    refine ⟨AtRest.exec hrest env ?_ ?_, fun item hitem hid => hentries item (hqueue item hitem hid)
      hid⟩
    · rintro runnerId rfl
      exact hclaim id (hpre rfl) hresting
    · rintro call runnerId rfl
      exact hallowed hresting

/-- Nothing that rests is offered. -/
theorem offered_not_resting (ht : s.threads[i]? = some t) (hallowed : LeavesAlone s i c)
    (hinv : RestsInQueue s.shared) (hclock : s.shared.2.clock ≤ env.clock) {id : InvocationId}
    {deadline : Timestamp} (hdeadline : s.shared.2.deadlines.lookup id = some deadline)
    (hlt : env.clock < deadline) :
    id ∉ Offers.offered t.task c (MemRuntime.execRunner env c s.shared.1).1 := by
  have hbefore : s.shared.2.clock < deadline := lt_of_le_of_lt hclock hlt
  have hresting : s.shared.2.Rests id := ⟨deadline, hdeadline, hbefore⟩
  obtain ⟨⟨status, hstatus, hrest⟩, hentries⟩ := hinv id deadline hdeadline hbefore
  -- whatever the broker hands out is due, and no entry of a resting invocation is
  have hqueue : ∀ item ∈ s.shared.1.broker.queue, item.invocationId = id →
      item.isDue env.clock = false := by
    intro item hitem hid
    obtain ⟨due, hdue, hle⟩ := hentries item hitem hid
    simp [QueuedInvocation.isDue, hdue, lt_of_lt_of_le hlt hle]
  generalize hr : (MemRuntime.execRunner env c s.shared.1).1 = r
  intro hid
  unfold Offers.offered at hid
  split at hid
  · rename_i language worker maxNum ids htask
    obtain rfl : s.shared.1.orchestrator.getBlockingInvocations env.order maxNum = ids :=
      Except.ok.inj hr
    have hcandidate := OrchestratorState.isBlockingCandidate_of_mem hid
    have hworker : (s.threads[i]?).any (fun t => t.task.claimsNext) = true := by
      rw [ht, Option.any_some, htask]
      rfl
    have hkey : id ∈ s.shared.2.deadlines.keys :=
      AList.mem_keys.mpr (AList.lookup_isSome.mp (by rw [hdeadline]; rfl))
    have hnot := hallowed hworker id hkey hresting
    rw [hcandidate.2] at hnot
    cases hnot
  · rename_i language worker taskLanguage queue x htask
    obtain rfl := List.mem_singleton.mp hid
    obtain ⟨item, hitem, hitemid, hdue⟩ := MemBroker.due_of_retrieveForLanguage hr
    rw [hqueue item hitem hitemid] at hdue
    cases hdue
  · rename_i maxNum runnerId x record htask
    split at hid
    · cases hid
    · rename_i hpassed
      obtain rfl := List.mem_singleton.mp hid
      have hread : s.shared.1.orchestrator.getInvocationStatus id = .ok record := hr
      have hrecord : s.shared.1.orchestrator.statusOf id = some record.status := by
        unfold OrchestratorState.getInvocationStatus at hread
        split at hread
        · rename_i found hfound
          obtain rfl := Except.ok.inj hread
          simp [OrchestratorState.statusOf, hfound]
        · cases hread
      rw [hrecord] at hstatus
      obtain rfl := Option.some.inj hstatus
      exact hpassed (passedOver_of_atRest hrest)
  · rename_i maxNum runnerId queue x htask
    obtain rfl := List.mem_singleton.mp hid
    obtain ⟨item, hitem, hitemid, hdue⟩ := MemBroker.due_of_retrieve hr
    rw [hqueue item hitem hitemid] at hdue
    cases hdue
  · cases hid

/-- What was offered to an unfinished operation does not start to rest. -/
theorem held_not_resting (ht : t ∈ s.threads) (hopen : t.next? ≠ none)
    (hallowed : LeavesAlone s i c) (hclaim : ∀ id ∈ (offering.book t).held, ¬ s.shared.2.Rests id)
    (hclock : s.shared.2.clock ≤ env.clock) :
    ∀ id ∈ (offering.book t).held,
      ¬ (s.shared.2.note env c (MemRuntime.execRunner env c s.shared.1).1).Rests id := by
  intro id hheld hrests
  rcases rests_before hrests with ⟨deadline, hdeadline, hlt⟩ |
    ⟨taskId, queue, priority, delayMs, hpos, rfl⟩
  · exact hclaim id hheld ⟨deadline, hdeadline, lt_of_le_of_lt hclock hlt⟩
  · exact (hallowed hpos).2.2 t ht hopen hheld

/-- An operation is offered nothing that rests. -/
theorem offers_exec (ht : s.threads[i]? = some t) (hopen : t.next? ≠ none)
    (hallowed : LeavesAlone s i c) (hinv : RestsInQueue s.shared)
    (hclaim : ∀ id ∈ (offering.book t).held, ¬ s.shared.2.Rests id)
    (hclock : s.shared.2.clock ≤ env.clock) :
    ∀ id ∈ (offering.next c (MemRuntime.execRunner env c s.shared.1).1 (offering.book t)).held,
      ¬ (s.shared.2.note env c (MemRuntime.execRunner env c s.shared.1).1).Rests id := by
  intro id hid hrests
  have hheld : id ∉ (offering.book t).held := fun hheld =>
    held_not_resting (List.mem_of_getElem? ht) hopen hallowed hclaim hclock id hheld hrests
  change id ∈ (if Offers.settles _ c then [] else Offers.offered (offering.book t).task c
    (MemRuntime.execRunner env c s.shared.1).1 ++ (offering.book t).held) at hid
  split at hid
  · cases hid
  · rw [book_task_offering, List.mem_append] at hid
    have hoffered := hid.resolve_right hheld
    rcases rests_before hrests with ⟨deadline, hdeadline, hlt⟩ | ⟨_, _, _, _, -, rfl⟩
    · exact offered_not_resting ht hallowed hinv hclock hdeadline hlt hoffered
    · unfold Offers.offered at hoffered
      split at hoffered <;> simp_all

end Call

theorem offers_undisturbed {d : Deployment} (hd : d.publication = false) (now : Timestamp) :
    offering.Undisturbed RestsInQueue (fun s g => ∀ id ∈ g.held, ¬ s.2.Rests id)
      (restingRunners d) restsUndisturbed (restingStart now) where
  program _ task htask := program_obeys_offering hd htask
  idle := rfl
  holds := by
    intro id deadline hdeadline
    simp [restingStart] at hdeadline
  start _ _ _ _ := by simp [offering]
  call s i env t c ht hnext hallowed hpre hinv hclaim := by
    have hopen : t.next? ≠ none := by simp [hnext]
    have hclock : s.shared.2.clock ≤ (deadlineObserver.look s.shared.2 env).clock :=
      le_max_left _ _
    exact ⟨MemRuntime.execRunner_truthful _ c _,
      restsInQueue_exec hallowed hpre hinv hclaim hclock,
      offers_exec ht hopen hallowed hinv hclaim hclock⟩
  others s i env t c j t' ht hnext hallowed hpre hinv hclaim hij ht' hopen hclaim' :=
    held_not_resting (List.mem_of_getElem? ht') hopen hallowed hclaim' (le_max_left _ _)

/-- What an operation has been handed to run: by `claim_next`, or by
`get_invocations_to_run`. -/
def handedOut (d : Deployment) (t : Thread runnerPorts RunnerTask) : List InvocationId :=
  match t.task with
  | .operation (.work language worker) =>
      match t.returned (lift (claimNext d language worker)).run with
      | some (.ok (some id)) => [id]
      | _ => []
  | .retrieve maxNum runnerId =>
      match t.returned (retrieveToRun d maxNum runnerId).run with
      | some (.ok ids) => ids
      | _ => []
  | _ => []

/-- **A delayed retry is not handed out before it is due** as long as the resting invocation
is left alone: at the step in which `claim_next` or `get_invocations_to_run` returns it, its
backoff is over or was lifted by another route. -/
theorem backoff_respected {d : Deployment} (hd : d.publication = false) {now : Timestamp}
    {s s' : System runnerPorts (MemRuntime × BackoffNote) RunnerTask}
    (hreach : Reachable (restingRunners d) restsUndisturbed (restingStart now) s) {i : Nat}
    {env : Env} (hallow : restsUndisturbed.Allows s (.step i env : Label Env RunnerTask))
    (hstep : s.apply (restingRunners d) (.step i env) = some s')
    {t : Thread runnerPorts RunnerTask} (ht : s'.threads[i]? = some t) :
    ∀ id ∈ handedOut d t, ¬ s'.shared.2.Rests id := by
  have hup := offers_undisturbed hd now
  have hreach' : Reachable (restingRunners d) restsUndisturbed (restingStart now) s' :=
    .next hreach hallow hstep
  have hmem : t ∈ s'.threads := List.mem_of_getElem? ht
  have hclaim := hup.after_call hreach hallow hstep ht
  intro id hid
  refine hclaim id ?_
  unfold handedOut at hid
  split at hid
  · rename_i language worker htask
    split at hid
    · rename_i x hreturned
      obtain rfl := List.mem_singleton.mp hid
      have hoffered : offering.ObeysE (lift (claimNext d language worker))
          (Returns (.operation (.work language worker))) (fun _ _ => True)
          (offering.start t.task) := by
        rw [htask]
        exact obeysE_lift.mpr (claimNext_returns hd language worker rfl)
      have hpost := hup.outcome hreach' hmem hoffered hreturned
      exact hpost.2 id rfl
    · cases hid
  · rename_i maxNum runnerId htask
    split at hid
    · rename_i ids hreturned
      have hoffered : offering.ObeysE (retrieveToRun d maxNum runnerId)
          (fun ids => Holds (.retrieve maxNum runnerId) ids) (fun _ _ => True)
          (offering.start t.task) := by
        rw [htask]
        exact retrieveToRun_holds hd maxNum runnerId
      have hpost := hup.outcome hreach' hmem hoffered hreturned
      exact hpost.2 hid
    · cases hid
  · cases hid

/-! ### A retry that is taken early -/

/-- The serial task without a limit and with a minute between its attempts. -/
def delayedDeployment : Deployment :=
  { serialDeployment with
    catalog :=
      { registry := fun taskId =>
          if taskId = serialTask then
            some { maxRetries := 1, retryDelayMs := 60000, retryJitter := .none }
          else none } }

/-- A minute and a half later. -/
def restedEnv : Env := { idleEnv with clock := 90000000000 }

/-- `a` is submitted and fails, and its retry is delayed by a minute. -/
def delayedRetry : List (Label Env RunnerTask) :=
  .start (.operation (submitSerial "a")) :: Label.steps 0 6 idleEnv ++
    .start (.operation (.work .rust ⟨"w1"⟩)) :: Label.steps 1 22 failingEnv

/-- The same, but somebody waits for `a` when a second worker asks for work. -/
def awaitedRetry : List (Label Env RunnerTask) :=
  delayedRetry ++ .start (.operation (.waitFor ⟨"parent"⟩ ⟨"a"⟩)) :: Label.steps 2 1 idleEnv ++
    .start (.operation (.work .rust ⟨"w2"⟩)) :: Label.steps 3 2 idleEnv

/-- After a minute the broker delivers `a` to a second worker, and not before. -/
theorem backoff_respected_delayedRetry :
    ∃ s s' t, Reachable (restingRunners delayedDeployment) restsUndisturbed (restingStart 0) s ∧
      s.apply (restingRunners delayedDeployment) (.step 2 restedEnv) = some s' ∧
      s'.threads[2]? = some t ∧ ⟨"a"⟩ ∈ handedOut delayedDeployment t ∧
      s'.shared.2.deadlines.lookup ⟨"a"⟩ = some 60000000000 ∧ ¬ s'.shared.2.Rests ⟨"a"⟩ := by
  obtain ⟨s, hreach, hallow, s', hstep, t, ht, hhanded, hdeadline⟩ := Reachable.exists_of_run
    (restingRunners delayedDeployment) restsUndisturbed (restingStart 0)
    (delayedRetry ++ .start (.operation (.work .rust ⟨"w2"⟩)) :: Label.steps 2 3 restedEnv)
    (fun s => restsUndisturbed.Allows s (.step 2 restedEnv : Label Env RunnerTask) ∧
      ∃ s' ∈ s.apply (restingRunners delayedDeployment) (.step 2 restedEnv),
        ∃ t ∈ s'.threads[2]?, ⟨"a"⟩ ∈ handedOut delayedDeployment t ∧
          s'.shared.2.deadlines.lookup (⟨"a"⟩ : InvocationId) = some 60000000000)
    (by decide +kernel) (by decide +kernel)
  exact ⟨s, s', t, hreach, hstep, ht, hhanded, hdeadline,
    backoff_respected rfl hreach hallow hstep ht _ hhanded⟩

/-- **A retry that somebody waits for does not rest.**  Batch retrieval passes over it until
its queue entry is due, `claim_next` hands it out at once. -/
theorem awaited_retry_handed_out :
    ∃ s s' t, Reachable (restingRunners delayedDeployment)
        (Guard.top runnerPorts (MemRuntime × BackoffNote) RunnerTask) (restingStart 0) s ∧
      s.apply (restingRunners delayedDeployment) (.step 3 idleEnv) = some s' ∧
      s'.threads[3]? = some t ∧ ⟨"a"⟩ ∈ handedOut delayedDeployment t ∧
      s'.shared.2.Rests ⟨"a"⟩ := by
  obtain ⟨s, hreach, s', hstep, t, ht, hhanded, hrests⟩ := Reachable.exists_of_run
    (restingRunners delayedDeployment) (Guard.top runnerPorts (MemRuntime × BackoffNote) RunnerTask)
    (restingStart 0) awaitedRetry
    (fun s => ∃ s' ∈ s.apply (restingRunners delayedDeployment) (.step 3 idleEnv),
      ∃ t ∈ s'.threads[3]?, ⟨"a"⟩ ∈ handedOut delayedDeployment t ∧ s'.shared.2.Rests ⟨"a"⟩)
    (Guard.allowsAll_top _ _ _) (by decide +kernel)
  exact ⟨s, s', t, hreach, hstep, ht, hhanded, hrests⟩

end Rustvello.Mem
