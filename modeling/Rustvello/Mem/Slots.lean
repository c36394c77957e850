import Rustvello.Mem.Admission
import Rustvello.Orchestration.Calls

/-!
# How many invocations of a task run at once

A worker runs a candidate of a limited task only after the admission put it into
the concurrency index, and the admission counts what it finds there.  So the limit
holds as long as the index is complete when it is counted.  This module makes both
halves precise for the in-memory backends:

* `admission` — the book of an operation: what it knows to be stored, what it has
  read, and the candidate it has admitted and not yet claimed;
* `Filed` — what is queued, waited for, known or owned is stored, and stored
  invocations keep their task and their call;
* `Occupies`, `Bounded` — an invocation occupies a slot while it is admitted or
  owned; no key has more occupants than its limit;
* `OwnedBy.keepsSlot` — what takes the slot of an owned invocation away: nothing but
  `remove_from_concurrency_index`, which does not look at the owner;
* `running_le_limit` — the limit, in every run whose admissions find the occupants
  of their key in the index, and in which no slot is given back under another's hands;
* `duplicate_exceeds_limit` — a duplicate delivery that takes a running
  invocation's slot away.
-/

namespace Rustvello.Mem

open Concurrency Proto Rustvello.Core Orchestration

/-! ## The book of an admission -/

structure Ledger where
  submission : Option Submission := none
  /-- Invocations known to be stored. -/
  known : List InvocationId := []
  /-- What was read about invocations and calls. -/
  invocations : List (InvocationId × InvocationDTO) := []
  calls : List (CallId × CallDTO) := []
  /-- Admitted with a slot, not yet claimed. -/
  admitted : Option InvocationId := none

def Ledger.open (op : Operation) : Ledger :=
  { submission := op.submission?, known := op.waitedOn?.toList }

def Ledger.next : (c : PortCall) → RustvelloResult c.Ans → Ledger → Ledger
  | .retrieveInvocationForLanguageFromQueue _ _, .ok (some id), g =>
      { g with known := id :: g.known }
  | .getBlockingInvocations _, .ok ids, g => { g with known := ids ++ g.known }
  | .upsertInvocation invocation _, .ok _, g =>
      { g with known := invocation.invocationId :: g.known }
  | .getInvocation id, .ok invocation, g =>
      { g with known := id :: g.known, invocations := (id, invocation) :: g.invocations }
  | .getCall callId, .ok call, g => { g with calls := (callId, call) :: g.calls }
  | .tryAcquireConcurrencySlot id _ _ _, .ok true, g => { g with admitted := some id }
  | .setInvocationStatus _ .pending _, _, g => { g with admitted := none }
  | _, _, g => g

theorem Ledger.next_setInvocationStatus (id : InvocationId) (status : InvocationStatus)
    (runnerId : Option RunnerId) (r : RustvelloResult InvocationStatusRecord) (g : Ledger) :
    Ledger.next (.setInvocationStatus id status runnerId) r g =
      { g with admitted := if status = .pending then none else g.admitted } := by
  cases status <;> rfl

/-- The invocation was read, and its task is not limited here. -/
def Ledger.Unlimited (d : Deployment) (g : Ledger) (id : InvocationId) : Prop :=
  ∃ invocation, (id, invocation) ∈ g.invocations ∧
    ∀ config, d.catalog.registry invocation.taskId = some config →
      config.concurrencyControl = .unlimited

/-- A slot is asked for with the key of the invocation as it was read. -/
def Ledger.MayAcquire (d : Deployment) (g : Ledger) (id : InvocationId) (taskId : TaskId)
    (config : TaskConfig) (ccArgs : Option SerializedArguments) : Prop :=
  ∃ invocation call, (id, invocation) ∈ g.invocations ∧ (invocation.callId, call) ∈ g.calls ∧
    invocation.taskId = taskId ∧ d.catalog.registry taskId = some config ∧
    config.concurrencyControl ≠ .unlimited ∧
    ccArgs = concurrencyArguments config.concurrencyControl config.keyArguments
      call.serializedArguments

def admission (d : Deployment) : Discipline ports Operation Ledger where
  start := Ledger.open
  next := Ledger.next
  pre
    | .upsertInvocation invocation call, g => ∃ submission, g.submission = some submission ∧
        invocation.invocationId = submission.invocationId ∧
        invocation.taskId = submission.call.taskId ∧
        invocation.callId = submission.call.callId ∧ call = submission.call
    | .routeInvocationWithOptions id _ _ _, g => id ∈ g.known
    | .routeInvocationAfter id _ _ _ _, g => id ∈ g.known
    | .setWaitingFor _ waitedOn, g => waitedOn ∈ g.known
    | .tryAcquireConcurrencySlot id taskId config ccArgs, g => g.MayAcquire d id taskId config ccArgs
    | .setInvocationStatus id status _, g =>
        status = .pending → g.admitted = some id ∨ g.Unlimited d id
    | _, _ => True
  resp
    | .getInvocation id, g, r => id ∈ g.known → ∃ invocation, r = .ok invocation
    | .getCall callId, g, r =>
        (∃ read ∈ g.invocations, read.2.callId = callId) → ∃ call, r = .ok call
    | .setInvocationStatus id status runnerId, _, r =>
        Truthful (.setInvocationStatus id status runnerId) r
    | _, _, _ => True

/-! ## Operations keep to it -/

section Programs

variable {d : Deployment} {ids : List InvocationId}

/-- The operation knows that these invocations are stored. -/
def Knows (ids : List InvocationId) (g : Ledger) : Prop :=
  ids ⊆ g.known

variable {g : Ledger} {id : InvocationId} {c : PortCall}

theorem Knows.cons (h : Knows ids g) (id : InvocationId) :
    ids ⊆ id :: g.known :=
  List.Subset.trans h (List.subset_cons_self id g.known)

theorem truthful_of_answers {r : RustvelloResult c.Ans}
    (h : (admission d).Answers c r) : Truthful c r := by
  obtain ⟨g, hr⟩ := h
  cases c <;> trivial

/-- A claimed invocation is not claimed again. -/
abbrev Unclaiming (status : InvocationStatus) : Prop :=
  status ≠ .pending

theorem attemptTargets_unclaiming : AttemptTargets Unclaiming :=
  ⟨by decide, by decide, by decide, by decide⟩

/-- Reads and updates are permitted and forget nothing. -/
theorem keeps_of_updates {runner : RunnerId}
    (h : Updates Unclaiming id runner c) : (admission d).Keeps (Knows ids) c := by
  intro g hg
  cases c <;> first
    | exact False.elim h
    | exact ⟨trivial, fun _ _ => hg⟩
    | skip
  case setInvocationStatus x status runnerId =>
      have hstatus : status ≠ .pending := h.2.1
      refine ⟨fun hpending => absurd hpending hstatus, fun r _ => ?_⟩
      change Knows ids (Ledger.next _ r g)
      cases status <;> first | exact absurd rfl hstatus | exact hg
  case getInvocation x =>
      refine ⟨trivial, fun r _ => ?_⟩
      cases r with
      | error e => exact hg
      | ok invocation => exact hg.cons x
  case getCall callId =>
      refine ⟨trivial, fun r _ => ?_⟩
      cases r <;> exact hg

/-- Acting on a known invocation is always permitted. -/
theorem keeps_of_actsOn (hid : id ∈ ids) {runner : RunnerId} (h : ActsOn Unclaiming id runner c) :
    (admission d).Keeps (Knows ids) c := by
  intro g hg
  rcases h with h | hrouted
  · exact keeps_of_updates h g hg
  · cases c <;> first | (simp [PortCall.routed?] at hrouted; done) | skip
    case routeInvocationWithOptions x _ _ _ =>
        obtain rfl : x = id := Option.some.inj hrouted
        exact ⟨hg hid, fun _ _ => hg⟩
    case routeInvocationAfter x _ _ _ _ =>
        obtain rfl : x = id := Option.some.inj hrouted
        exact ⟨hg hid, fun _ _ => hg⟩

/-- An operation that acts on a known invocation keeps to the discipline. -/
theorem actsOn_obeys {α : Type} (id : InvocationId) (runner : RunnerId) {p : Orch α}
    (h : Prog.UsesE Truthful (ActsOn Unclaiming id runner) p) (hg : Knows [id] g) :
    (admission d).ObeysE p (fun _ _ => True) (fun _ _ => True) g :=
  (Discipline.ObeysE.of_keeps
    (Prog.Uses.mono h (fun _ _ => truthful_of_answers) fun _ =>
      keeps_of_actsOn (List.mem_singleton.mpr rfl)) hg).mono
    (fun _ _ _ => trivial) fun _ _ _ => trivial

/-- The calls that the ledger looks at. -/
def tracked : PortCall → Bool
  | .retrieveInvocationForLanguageFromQueue _ _ | .getBlockingInvocations _
  | .upsertInvocation _ _ | .getInvocation _ | .getCall _ | .tryAcquireConcurrencySlot _ _ _ _
  | .setInvocationStatus _ _ _ | .routeInvocationWithOptions _ _ _ _
  | .routeInvocationAfter _ _ _ _ _ | .setWaitingFor _ _ => true
  | _ => false

theorem quiet_of_not_tracked (h : tracked c = false) : (admission d).Quiet c := by
  intro g
  cases c <;> first | (simp [tracked] at h; done) | exact ⟨trivial, fun _ => rfl⟩

/-- A call the ledger does not look at, then the rest. -/
theorem obeysE_skip_bind {β : Type} (hc : tracked c = false) {f : c.Ans → Orch β}
    {Q : β → Ledger → Prop} (hf : ∀ a, (admission d).ObeysE (f a) Q (fun _ _ => True) g) :
    (admission d).ObeysE (port c >>= f) Q (fun _ _ => True) g :=
  Discipline.ObeysE.bind_of_uses (usesE_port (quiet_of_not_tracked hc)) (fun _ => trivial) hf

theorem submitWithId_files (hd : d.publication = false) (s : Submission) :
    (admission d).ObeysE (submitWithId d s) (fun _ _ => True) (fun _ _ => True)
      { submission := some s } := by
  unfold submitWithId
  split
  · trivial
  · refine obeysE_skip_bind rfl fun now => ?_
    rw [if_neg (by simp [hd])]
    unfold submitOrdered
    refine Discipline.obeysE_bind.mpr ?_
    refine obeysE_skip_bind rfl fun record => ?_
    refine obeysE_port_bind.mpr ⟨⟨s, rfl, rfl, rfl, rfl, rfl⟩, fun _ _ => ?_, fun _ _ => trivial⟩
    refine obeysE_skip_bind rfl fun now => ?_
    refine obeysE_skip_bind rfl fun _ => ?_
    refine obeysE_port.mpr ⟨List.mem_singleton.mpr rfl, ?_⟩
    rintro (e | a) _ <;> trivial

/-- The claim of this candidate is permitted: it has a slot or needs none. -/
structure Cleared (d : Deployment) (id : InvocationId) (g : Ledger) : Prop where
  known : id ∈ g.known
  slot : g.admitted = some id ∨ g.Unlimited d id

theorem Cleared.getInvocation (h : Cleared d id g) (x : InvocationId) (invocation : InvocationDTO) :
    Cleared d id { g with
      known := x :: g.known
      invocations := (x, invocation) :: g.invocations } := by
  refine ⟨List.mem_cons_of_mem _ h.known, h.slot.imp (fun h => h) ?_⟩
  rintro ⟨read, hread, hlimit⟩
  exact ⟨read, List.mem_cons_of_mem _ hread, hlimit⟩

/-- What is left to do for a denied candidate. -/
theorem denyCandidate_keeps (hd : d.publication = false) (hid : id ∈ ids) (taskId : TaskId)
    (config : TaskConfig) (runnerId : RunnerId) :
    Prog.UsesE (admission d).Answers ((admission d).Keeps (Knows ids))
      (denyCandidate d id taskId config runnerId) := by
  have hstatus : ∀ status, status ≠ InvocationStatus.pending →
      (admission d).Keeps (Knows ids) (.setInvocationStatus id status none) := by
    intro status hstatus g hg
    refine ⟨fun hpending => absurd hpending hstatus, fun r _ => ?_⟩
    change Knows ids (Ledger.next _ r g)
    cases status <;> first | exact absurd rfl hstatus | exact hg
  unfold denyCandidate
  split
  · unfold denyByReroute
    rw [if_neg (by simp [hd])]
    refine Prog.usesE_bind (usesE_attempt (usesE_port (hstatus _ (by decide)))) ?_
    rintro (e | record)
    · dsimp only
      split
      · exact usesE_pure _
      · exact usesE_throw _
    · exact Prog.usesE_bind (usesE_port (hstatus _ (by decide))) fun _ =>
        usesE_port fun g hg => ⟨hg hid, fun _ _ => hg⟩
  · refine Prog.usesE_bind (usesE_attempt (usesE_port (hstatus _ (by decide)))) ?_
    rintro (e | record)
    · dsimp only
      split
      · exact usesE_pure _
      · exact usesE_throw _
    · exact usesE_pure _

/-- Admission of a known candidate: a slot under its own key, or no limit at all. -/
theorem admitCandidate_clears (hd : d.publication = false) (hid : id ∈ ids) (runnerId : RunnerId)
    (hg : Knows ids g) :
    (admission d).ObeysE (admitCandidate d id runnerId)
      (fun admitted g' => if admitted then Cleared d id g' else Knows ids g')
      (fun _ _ => True) g := by
  unfold admitCandidate
  refine obeysE_attempt_bind.mpr (obeysE_port.mpr ⟨trivial, ?_⟩)
  rintro (e | invocation) hread
  · obtain ⟨_, h⟩ := hread (hg hid)
    cases h
  · dsimp only [Discipline.outcome_ok]
    have hinvocation : (id, invocation) ∈ ((admission d).next (.getInvocation id)
        (.ok invocation) g).invocations := List.mem_cons_self
    have hknown : Knows ids ((admission d).next (.getInvocation id) (.ok invocation) g) :=
      hg.cons id
    generalize (admission d).next (.getInvocation id) (.ok invocation) g = g at hinvocation hknown
    have hunlimited : (∀ config, d.catalog.registry invocation.taskId = some config →
        config.concurrencyControl = .unlimited) → Cleared d id g := fun h =>
      ⟨hknown hid, .inr ⟨invocation, hinvocation, h⟩⟩
    cases hconfig : d.catalog.registry invocation.taskId with
    | none => exact hunlimited fun config h => by rw [hconfig] at h; cases h
    | some config =>
        dsimp only
        split
        · rename_i hcontrol
          exact hunlimited fun config' h => by
            rw [hconfig] at h
            cases h
            exact hcontrol
        · rename_i hcontrol
          refine obeysE_attempt_bind.mpr (obeysE_port.mpr ⟨trivial, ?_⟩)
          rintro (e | call) hread
          · obtain ⟨_, h⟩ := hread ⟨_, hinvocation, rfl⟩
            cases h
          · dsimp only [Discipline.outcome_ok]
            unfold admitLimited
            refine obeysE_port_bind.mpr ⟨⟨invocation, call, hinvocation, List.mem_cons_self, rfl,
              hconfig, hcontrol, rfl⟩, fun admitted _ => ?_, fun _ _ => trivial⟩
            cases admitted with
            | true => exact ⟨hknown hid, .inl rfl⟩
            | false =>
                refine Discipline.ObeysE.bind_of_keeps
                  (denyCandidate_keeps hd hid invocation.taskId config runnerId) ?_
                  (fun _ _ _ => trivial) fun _ _ hg' => hg'
                exact hknown

theorem admitBlocking_clears (hd : d.publication = false) (language : TaskLanguage)
    (runnerId : RunnerId) (ids : List InvocationId) (hg : Knows ids g) :
    (admission d).ObeysE (admitBlocking d language runnerId ids)
      (fun found g' => ∀ id ∈ found, Cleared d id g') (fun _ _ => True) g := by
  induction ids generalizing g with
  | nil => exact fun id hid => by cases hid
  | cons id rest ih =>
      have hmatch : Prog.UsesE (admission d).Answers ((admission d).Keeps (Knows (id :: rest)))
          (candidateMatchesLanguage id language) := by
        refine Prog.usesE_bind (usesE_attempt (usesE_port fun g hg => ⟨trivial, fun r _ => ?_⟩)) ?_
        · cases r with
          | error e => exact hg
          | ok invocation => exact hg.cons id
        · rintro (e | invocation) <;> exact usesE_pure _
      unfold admitBlocking
      refine Discipline.ObeysE.bind_of_keeps hmatch hg (fun _ _ _ => trivial) ?_
      intro isMatch g' hg'
      have hrest : ∀ {g}, Knows (id :: rest) g → Knows rest g := fun h =>
        List.Subset.trans (List.subset_cons_self id rest) h
      cases isMatch with
      | false => exact ih (hrest hg')
      | true =>
          refine Discipline.ObeysE.bind
            (admitCandidate_clears hd List.mem_cons_self runnerId hg') ?_
          intro admitted g'' hg''
          cases admitted with
          | true =>
              rintro x hx
              obtain rfl : id = x := Option.some.inj hx
              exact hg''
          | false => exact ih (hrest hg'')

theorem retrieveFromQueues_knows (language : TaskLanguage) (queues : List String) (g : Ledger) :
    (admission d).ObeysE (retrieveFromQueues language queues)
      (fun found g' => ∀ id ∈ found, Knows [id] g') (fun _ _ => True) g := by
  induction queues generalizing g with
  | nil => exact fun id hid => by cases hid
  | cons queue rest ih =>
      refine obeysE_port_bind.mpr ⟨trivial, fun found _ => ?_, fun _ _ => trivial⟩
      cases found with
      | none => exact ih g
      | some id =>
          rintro x hx
          obtain rfl : id = x := Option.some.inj hx
          exact List.cons_subset.mpr ⟨List.mem_cons_self, List.nil_subset _⟩

theorem claimFromBroker_clears (hd : d.publication = false) (language : TaskLanguage)
    (runnerId : RunnerId) (n : Nat) (g : Ledger) :
    (admission d).ObeysE (claimFromBroker d language runnerId n)
      (fun found g' => ∀ id ∈ found, Cleared d id g') (fun _ _ => True) g := by
  induction n generalizing g with
  | zero => exact fun id hid => by cases hid
  | succ n ih =>
      refine obeysE_skip_bind (c := .queueNamesForRetrieval _) rfl fun queues => ?_
      refine Discipline.ObeysE.bind (retrieveFromQueues_knows language queues g) ?_
      intro found g' hg'
      cases found with
      | none => exact fun id hid => by cases hid
      | some id =>
          refine Discipline.ObeysE.bind
            (admitCandidate_clears hd (List.mem_singleton.mpr rfl) runnerId (hg' id rfl)) ?_
          intro admitted g'' hg''
          cases admitted with
          | true =>
              rintro x hx
              obtain rfl : id = x := Option.some.inj hx
              exact hg''
          | false => exact ih g''

theorem claimNext_clears (hd : d.publication = false) (language : TaskLanguage)
    (runnerId : RunnerId) (g : Ledger) :
    (admission d).ObeysE (claimNext d language runnerId)
      (fun found g' => ∀ id ∈ found, Cleared d id g') (fun _ _ => True) g := by
  unfold claimNext
  refine obeysE_attempt_bind.mpr (obeysE_port.mpr ⟨trivial, ?_⟩)
  rintro (e | blocking) _
  · exact claimFromBroker_clears hd language runnerId _ g
  · refine Discipline.ObeysE.bind
      (admitBlocking_clears hd language runnerId blocking (List.subset_append_left _ _)) ?_
    intro found g' hg'
    cases found with
    | none => exact claimFromBroker_clears hd language runnerId _ g'
    | some id => exact hg'

theorem Cleared.knows (h : Cleared d id g) : Knows [id] g :=
  List.cons_subset.mpr ⟨h.known, List.nil_subset _⟩

/-- The claim itself: the admission ends with it, accepted or not. -/
theorem claim_obeys (hd : d.publication = false) (id : InvocationId) (worker : RunnerId)
    (taskId : TaskId) (arguments : SerializedArguments) (hg : Cleared d id g) :
    (admission d).ObeysE (setInvocationStatusWithContext d id .pending worker taskId arguments)
      (fun _ => Knows [id]) (fun _ => Knows [id]) g := by
  unfold setInvocationStatusWithContext
  rw [if_neg (by simp [hd])]
  refine obeysE_port_bind.mpr ⟨fun _ => hg.slot, fun record _ => ?_, fun e _ => hg.knows⟩
  have hquiet : ∀ {c : PortCall}, tracked c = false → (admission d).Keeps (Knows [id]) c :=
    fun hc => (quiet_of_not_tracked hc).keeps _
  refine Discipline.ObeysE.of_keeps (usesE_afterStatus (hquiet rfl) (hquiet rfl) (hquiet rfl)
    ⟨fun _ _ _ _ => hquiet rfl, fun _ _ _ _ => hquiet rfl, fun _ _ _ _ _ => hquiet rfl⟩ d
    .pending taskId arguments) ?_
  exact hg.knows

/-- The claim of a cleared candidate, and everything after it. -/
theorem executeInvocation_files (hd : d.publication = false) (id : InvocationId) (worker : RunnerId)
    (hg : Cleared d id g) :
    (admission d).ObeysE (executeInvocation d id worker) (fun _ _ => True) (fun _ _ => True) g := by
  -- looking up the trigger context may add to the ledger and takes nothing away
  have hcontext : Prog.UsesE (admission d).Answers ((admission d).Keeps (Cleared d id))
      (triggerContextFor d id) := by
    refine Lookups.triggerContextFor ⟨fun x g hg => ⟨trivial, fun r _ => ?_⟩,
      fun callId g hg => ⟨trivial, fun r _ => ?_⟩⟩ d id
    · cases r with
      | error e => exact hg
      | ok invocation => exact hg.getInvocation x invocation
    · cases r with
      | error e => exact hg
      | ok call => exact ⟨hg.known, hg.slot⟩
  have hlost : ∀ (e : RustvelloError) (g' : Ledger), Knows [id] g' →
      (admission d).ObeysE (if e.isInvalidStatusTransition ∨ e.isOwnershipViolation then
        releaseNontransactionalConcurrencySlot d id
      else do
        let _ ← attempt (releaseNontransactionalConcurrencySlot d id)
        throw e) (fun _ _ => True) (fun _ _ => True) g' := by
    intro e g' hg'
    split
    · exact actsOn_obeys id worker (usesE_actsOn id worker (releaseSlot_updates hd id worker)) hg'
    · exact actsOn_obeys id worker (usesE_actsOn id worker (Prog.usesE_bind
        (usesE_attempt (releaseSlot_updates hd id worker)) fun _ => usesE_throw e)) hg'
  unfold executeInvocation Orchestration.setInvocationStatus
  refine obeysE_attempt_bind.mpr (Discipline.ObeysE.bind_of_keeps hcontext hg ?_ ?_)
  · exact fun e g' hg' => hlost e g' hg'.knows
  · intro context g' hg'
    refine (claim_obeys hd id worker _ _ hg').mono ?_ hlost
    exact fun _ _ hg'' => actsOn_obeys id worker (executeClaimed_actsOn hd id worker attemptTargets_unclaiming) hg''

theorem workerRound_files (hd : d.publication = false) (language : TaskLanguage)
    (worker : RunnerId) (g : Ledger) :
    (admission d).ObeysE (workerRound d language worker) (fun _ _ => True) (fun _ _ => True) g := by
  refine Discipline.ObeysE.bind (claimNext_clears hd language worker g) ?_
  intro found g' hg'
  cases found with
  | none => trivial
  | some id => exact executeInvocation_files hd id worker (hg' id rfl)

/-- A recovery reads the invocation before it acts on it. -/
theorem recoverOne_files (hd : d.publication = false) (runnerId : RunnerId) (id : InvocationId)
    {recoveryStatus : InvocationStatus} (h : isRecoveryStatus recoveryStatus = true)
    (g : Ledger) :
    (admission d).ObeysE (recoverOne d runnerId id recoveryStatus) (fun _ _ => True)
      (fun _ _ => True) g := by
  have hrecovery : Unclaiming recoveryStatus := by
    revert recoveryStatus
    decide
  have hacts := recoverOne_actsOn hd id runnerId hrecovery (by decide) (by decide)
  unfold recoverOne at hacts ⊢
  refine obeysE_port_bind.mpr ⟨trivial, fun invocation _ => ?_, fun _ _ => trivial⟩
  refine actsOn_obeys id runnerId (hacts.2 (.ok invocation) trivial) ?_
  exact List.cons_subset.mpr ⟨List.mem_cons_self, List.nil_subset _⟩

theorem program_files (hd : d.publication = false) {op : Operation} (h : Considered op) :
    (admission d).Obeys (op.program d) (fun _ _ => True) (Ledger.open op) := by
  have htoUnit : ∀ {α : Type} {p : Orch α} {g : Ledger},
      (admission d).ObeysE p (fun _ _ => True) (fun _ _ => True) g →
      (admission d).Obeys p.run.toUnit (fun _ _ => True) g := by
    intro α p g hp
    exact Discipline.Obeys.toUnit (Discipline.Obeys.mono hp fun _ _ _ => trivial)
  cases op with
  | submit submission => exact htoUnit (submitWithId_files hd submission)
  | work language worker => exact htoUnit (workerRound_files hd language worker _)
  | recover runnerId id status => exact htoUnit (recoverOne_files hd runnerId id h _)
  | cancel id runnerId =>
      have hcancel : Prog.UsesE Truthful (Updates Unclaiming id runnerId)
          (cancelInvocation d id runnerId) := cancelInvocation_updates hd id runnerId (by decide)
      exact htoUnit ((Discipline.ObeysE.of_keeps (Prog.Uses.mono hcancel
        (fun _ _ => truthful_of_answers) fun _ => keeps_of_updates) (List.nil_subset _)).mono
        (fun _ _ _ => trivial) fun _ _ _ => trivial)
  | waitFor waiter waitedOn =>
      refine htoUnit (obeysE_port.mpr ⟨List.mem_singleton.mpr rfl, ?_⟩)
      rintro (e | a) _ <;> trivial
  | evaluateTriggers runnerId => exact h.elim

end Programs

/-! ## What is stored -/

section Storage

variable {d : Deployment} {b b' : BackendState} {id : InvocationId}

def BackendState.Stored (b : BackendState) (id : InvocationId) : Prop :=
  ∃ invocation, b.invocations.lookup id = some invocation

/-- Everything an operation noted down is in the tables. -/
structure Ledger.Justified (g : Ledger) (b : BackendState) : Prop where
  known : ∀ id ∈ g.known, b.Stored id
  invocations : ∀ read ∈ g.invocations, ∃ invocation,
    b.invocations.lookup read.1 = some invocation ∧ invocation.taskId = read.2.taskId ∧
      invocation.callId = read.2.callId
  calls : ∀ read ∈ g.calls, b.calls.lookup read.1 = some read.2
  admitted : ∀ id, g.admitted = some id → b.Stored id

/-- Task and concurrency key of a stored invocation. -/
def slotKey (d : Deployment) (b : BackendState) (id : InvocationId) :
    Option (TaskId × Option SerializedArguments) :=
  match b.invocations.lookup id with
  | none => none
  | some invocation =>
      match d.catalog.registry invocation.taskId, b.calls.lookup invocation.callId with
      | some config, some call =>
          some (invocation.taskId, concurrencyArguments config.concurrencyControl
            config.keyArguments call.serializedArguments)
      | _, _ => none

/-- The invocation competes under this key and is owned by a worker, or admitted. -/
def Occupies (d : Deployment) (s : MemRuntime) (books : List Ledger)
    (key : TaskId × Option SerializedArguments) (id : InvocationId) : Prop :=
  slotKey d s.backend id = some key ∧
    ((∃ status ∈ s.orchestrator.statusOf id, status.Owned) ∨ ∃ g ∈ books, g.admitted = some id)

/-- No key of a limited task has more occupants than the limit. -/
def Bounded (d : Deployment) (s : MemRuntime) (books : List Ledger) : Prop :=
  ∀ taskId config ccArgs, d.catalog.registry taskId = some config →
    config.concurrencyControl ≠ .unlimited → ∀ occupants : Finset InvocationId,
    (∀ id ∈ occupants, Occupies d s books (taskId, ccArgs) id) → occupants.card ≤ config.limit

/-- A submission of some operation of the pool. -/
def Submitted (books : List Ledger) (submission : Submission) : Prop :=
  ∃ g ∈ books, g.submission = some submission

/-- The tables hold what was submitted, and every invocation that an operation can
come across is stored. -/
structure Filed (s : MemRuntime) (books : List Ledger) : Prop where
  coherent : ∀ left right, Submitted books left → Submitted books right →
    (left.invocationId = right.invocationId → left.call = right.call) ∧
      (left.call.callId = right.call.callId → left.call = right.call)
  invocations : ∀ id invocation, s.backend.invocations.lookup id = some invocation →
    ∃ submission, Submitted books submission ∧ submission.invocationId = id ∧
      invocation.taskId = submission.call.taskId ∧
      invocation.callId = submission.call.callId ∧
      s.backend.calls.lookup invocation.callId = some submission.call
  calls : ∀ callId call, s.backend.calls.lookup callId = some call →
    ∃ submission, Submitted books submission ∧ submission.call = call ∧ call.callId = callId
  queued : ∀ id, s.broker.Queued id → s.backend.Stored id
  waited : ∀ id ∈ s.orchestrator.waiters, s.backend.Stored id
  owned : ∀ id, ∀ status ∈ s.orchestrator.statusOf id, status.Owned → s.backend.Stored id
  ledgers : ∀ g ∈ books, g.Justified s.backend

end Storage

/-! ## One call -/

section Steps

variable {d : Deployment} {s s' : MemRuntime} {before after : List Ledger} {g g' : Ledger}
  {id : InvocationId} {ccArgs : Option SerializedArguments} {config : TaskConfig} {taskId : TaskId}

theorem submitted_replace (hsubmission : g'.submission = g.submission) (submission : Submission) :
    Submitted (before ++ g' :: after) submission ↔
      Submitted (before ++ g :: after) submission := by
  simp only [Submitted, List.mem_append, List.mem_cons, or_and_right, exists_or,
    exists_eq_left, hsubmission]

theorem mem_replace {x : Ledger} (hx : x ∈ before ++ g' :: after) :
    x ∈ before ++ g :: after ∨ x = g' :=
  (mem_replaced hx).imp_left fun hx => mem_of_others hx g

/-- The invocation is not limited, whatever its key. -/
def Unbounded (d : Deployment) (b : BackendState) (id : InvocationId) : Prop :=
  ∀ taskId ccArgs config, slotKey d b id = some (taskId, ccArgs) →
    d.catalog.registry taskId = some config → config.concurrencyControl = .unlimited

/-- A call that leaves the tables alone: what it newly makes queued, waited for, owned
or known is stored. -/
theorem Filed.step (h : Filed s (before ++ g :: after))
    (hinvocations : s'.backend.invocations = s.backend.invocations)
    (hcalls : s'.backend.calls = s.backend.calls)
    (hsubmission : g'.submission = g.submission)
    (hqueued : ∀ id, s'.broker.Queued id → s.broker.Queued id ∨ s.backend.Stored id)
    (hwaited : ∀ id ∈ s'.orchestrator.waiters, id ∈ s.orchestrator.waiters ∨ s.backend.Stored id)
    (howned : ∀ id, ∀ status ∈ s'.orchestrator.statusOf id, status.Owned →
      (∃ status ∈ s.orchestrator.statusOf id, status.Owned) ∨ s.backend.Stored id)
    (hledger : g'.Justified s.backend) :
    Filed s' (before ++ g' :: after) := by
  have hstored : ∀ id, s'.backend.Stored id ↔ s.backend.Stored id := fun id => by
    rw [BackendState.Stored, BackendState.Stored, hinvocations]
  refine ⟨?_, ?_, ?_, ?_, ?_, ?_, ?_⟩
  · intro left right hleft hright
    rw [submitted_replace hsubmission] at hleft hright
    exact h.coherent left right hleft hright
  · intro id invocation hlookup
    rw [hinvocations] at hlookup
    obtain ⟨submission, hsub, hrest⟩ := h.invocations id invocation hlookup
    exact ⟨submission, (submitted_replace hsubmission _).mpr hsub, by rw [hcalls]; exact hrest⟩
  · intro callId call hlookup
    rw [hcalls] at hlookup
    obtain ⟨submission, hsub, hrest⟩ := h.calls callId call hlookup
    exact ⟨submission, (submitted_replace hsubmission _).mpr hsub, hrest⟩
  · intro id hid
    rw [hstored]
    exact (hqueued id hid).elim (h.queued id) (fun h => h)
  · intro id hid
    rw [hstored]
    exact (hwaited id hid).elim (h.waited id) (fun h => h)
  · intro id status hstatus howner
    rw [hstored]
    rcases howned id status hstatus howner with ⟨status, hstatus, howner⟩ | hid
    · exact h.owned id status hstatus howner
    · exact hid
  · intro x hx
    have hjustified : x.Justified s.backend := by
      rcases mem_replace hx with hx | rfl
      · exact h.ledgers x hx
      · exact hledger
    exact ⟨fun id hid => (hstored id).mpr (hjustified.known id hid),
      fun read hread => by rw [hinvocations]; exact hjustified.invocations read hread,
      fun read hread => by rw [hcalls]; exact hjustified.calls read hread,
      fun id hid => (hstored id).mpr (hjustified.admitted id hid)⟩

/-- A call without a new occupant: an owner is new only for the admitted candidate or
without limit. -/
theorem Bounded.step (h : Bounded d s (before ++ g :: after))
    (hkey : ∀ id key, slotKey d s'.backend id = some key →
      ((∃ status ∈ s'.orchestrator.statusOf id, status.Owned) ∨
        ∃ x ∈ before ++ g' :: after, x.admitted = some id) →
      slotKey d s.backend id = some key)
    (howned : ∀ id, ∀ status ∈ s'.orchestrator.statusOf id, status.Owned →
      (∃ status ∈ s.orchestrator.statusOf id, status.Owned) ∨
        g.admitted = some id ∨ Unbounded d s.backend id)
    (hadmitted : ∀ id, g'.admitted = some id → g.admitted = some id) :
    Bounded d s' (before ++ g' :: after) := by
  intro taskId config ccArgs hconfig hlimited occupants hoccupants
  refine h taskId config ccArgs hconfig hlimited occupants fun id hid => ?_
  obtain ⟨hslot, hby⟩ := hoccupants id hid
  have hslot := hkey id _ hslot hby
  refine ⟨hslot, ?_⟩
  have hg : g ∈ before ++ g :: after := by simp
  rcases hby with ⟨status, hstatus, howner⟩ | ⟨x, hx, hadm⟩
  · rcases howned id status hstatus howner with hold | hadm | hunbounded
    · exact .inl hold
    · exact .inr ⟨g, hg, hadm⟩
    · exact absurd (hunbounded taskId ccArgs config hslot hconfig) hlimited
  · rcases mem_replace hx with hx | rfl
    · exact .inr ⟨x, hx, hadm⟩
    · exact .inr ⟨g, hg, hadmitted id hadm⟩

theorem slotKey_eq (hinvocations : s'.backend.invocations = s.backend.invocations)
    (hcalls : s'.backend.calls = s.backend.calls) (id : InvocationId) :
    slotKey d s'.backend id = slotKey d s.backend id := by
  rw [slotKey, slotKey, hinvocations, hcalls]

/-! ### Storing an invocation -/

section Upsert

variable {invocation : InvocationDTO} {call : CallDTO} {submission : Submission}

/-- The tables only grow: what was stored keeps its task and its call. -/
structure BackendState.Extends (b b' : BackendState) : Prop where
  invocations : ∀ id invocation, b.invocations.lookup id = some invocation → ∃ invocation',
    b'.invocations.lookup id = some invocation' ∧ invocation'.taskId = invocation.taskId ∧
      invocation'.callId = invocation.callId
  calls : ∀ callId call, b.calls.lookup callId = some call → b'.calls.lookup callId = some call

theorem Ledger.Justified.mono {b b' : BackendState} (h : g.Justified b) (hb : b.Extends b') :
    g.Justified b' := by
  have hstored : ∀ id, b.Stored id → b'.Stored id := by
    rintro id ⟨invocation, hlookup⟩
    obtain ⟨invocation', hlookup', -⟩ := hb.invocations id invocation hlookup
    exact ⟨invocation', hlookup'⟩
  refine ⟨fun id hid => hstored id (h.known id hid), fun read hread => ?_,
    fun read hread => hb.calls _ _ (h.calls read hread),
    fun id hid => hstored id (h.admitted id hid)⟩
  obtain ⟨invocation, hlookup, htask, hcall⟩ := h.invocations read hread
  obtain ⟨invocation', hlookup', htask', hcall'⟩ := hb.invocations _ _ hlookup
  exact ⟨invocation', hlookup', htask'.trans htask, hcall'.trans hcall⟩

variable (h : Filed s (before ++ g :: after)) (hsubmission : g.submission = some submission)
  (hid : invocation.invocationId = submission.invocationId)
  (htask : invocation.taskId = submission.call.taskId)
  (hcallId : invocation.callId = submission.call.callId) (hcall : call = submission.call)
include h hsubmission hid htask hcallId hcall

theorem upsertInvocation_extends :
    s.backend.Extends (s.backend.upsertInvocation invocation call) := by
  have hsub : Submitted (before ++ g :: after) submission := ⟨g, by simp, hsubmission⟩
  constructor
  · intro id old hlookup
    by_cases hx : id = invocation.invocationId
    · subst hx
      obtain ⟨other, hother, hotherId, htask', hcallId', -⟩ := h.invocations _ _ hlookup
      have hsame := (h.coherent other submission hother hsub).1 (hotherId.trans hid)
      exact ⟨invocation, AList.lookup_insert _, by rw [htask', htask, hsame],
        by rw [hcallId', hcallId, hsame]⟩
    · exact ⟨old, by rw [BackendState.upsertInvocation, AList.lookup_insert_ne hx, hlookup],
        rfl, rfl⟩
  · intro callId old hlookup
    by_cases hx : callId = call.callId
    · subst hx
      obtain ⟨other, hother, rfl, hotherId⟩ := h.calls _ _ hlookup
      rw [hcall] at hotherId ⊢
      rw [(h.coherent other submission hother hsub).2 hotherId]
      exact AList.lookup_insert _
    · rw [BackendState.upsertInvocation, AList.lookup_insert_ne hx, hlookup]

/-- Storing the submitted invocation keeps every file in order. -/
theorem Filed.upsert (hbackend : s'.backend = s.backend.upsertInvocation invocation call)
    (hbroker : s'.broker = s.broker) (horchestrator : s'.orchestrator = s.orchestrator) :
    Filed s' (before ++ { g with known := invocation.invocationId :: g.known } :: after) := by
  have hext := upsertInvocation_extends h hsubmission hid htask hcallId hcall
  have hsub : Submitted (before ++ g :: after) submission := ⟨g, by simp, hsubmission⟩
  have hstored : ∀ id, s.backend.Stored id → s'.backend.Stored id := by
    rintro id ⟨old, hlookup⟩
    obtain ⟨new, hlookup', -⟩ := hext.invocations id old hlookup
    exact ⟨new, by rw [hbackend]; exact hlookup'⟩
  have hreplace : ∀ x, Submitted
      (before ++ { g with known := invocation.invocationId :: g.known } :: after) x ↔
        Submitted (before ++ g :: after) x := by
    intro x
    refine submitted_replace ?_ x
    rfl
  refine ⟨?_, ?_, ?_, ?_, ?_, ?_, ?_⟩
  · intro left right hleft hright
    rw [hreplace] at hleft hright
    exact h.coherent left right hleft hright
  · intro id stored hlookup
    rw [hbackend] at hlookup ⊢
    by_cases hx : id = invocation.invocationId
    · subst hx
      rw [BackendState.upsertInvocation, AList.lookup_insert] at hlookup
      obtain rfl : invocation = stored := Option.some.inj hlookup
      refine ⟨submission, (hreplace _).mpr hsub, hid.symm, htask, hcallId, ?_⟩
      rw [hcallId, ← hcall]
      exact AList.lookup_insert _
    · rw [BackendState.upsertInvocation, AList.lookup_insert_ne hx] at hlookup
      obtain ⟨other, hother, hotherId, htask', hcallId', hlookup'⟩ := h.invocations _ _ hlookup
      exact ⟨other, (hreplace _).mpr hother, hotherId, htask', hcallId', hext.calls _ _ hlookup'⟩
  · intro callId stored hlookup
    rw [hbackend] at hlookup
    by_cases hx : callId = call.callId
    · subst hx
      rw [BackendState.upsertInvocation, AList.lookup_insert] at hlookup
      obtain rfl : call = stored := Option.some.inj hlookup
      exact ⟨submission, (hreplace _).mpr hsub, hcall.symm, rfl⟩
    · rw [BackendState.upsertInvocation, AList.lookup_insert_ne hx] at hlookup
      obtain ⟨other, hother, hrest⟩ := h.calls _ _ hlookup
      exact ⟨other, (hreplace _).mpr hother, hrest⟩
  · intro id hqueued
    rw [hbroker] at hqueued
    exact hstored id (h.queued id hqueued)
  · intro id hwaited
    rw [horchestrator] at hwaited
    exact hstored id (h.waited id hwaited)
  · intro id status hstatus howner
    rw [horchestrator] at hstatus
    exact hstored id (h.owned id status hstatus howner)
  · intro x hx
    rcases mem_replace hx with hx | rfl
    · rw [hbackend]
      exact (h.ledgers x hx).mono hext
    · have hold : g.Justified s'.backend := by
        rw [hbackend]
        exact (h.ledgers g (by simp)).mono hext
      refine ⟨?_, hold.invocations, hold.calls, hold.admitted⟩
      intro id hmem
      rcases List.mem_cons.mp hmem with rfl | hmem
      · exact ⟨invocation, by rw [hbackend]; exact AList.lookup_insert _⟩
      · exact hold.known id hmem

/-- What was stored before keeps its key. -/
theorem slotKey_upsertInvocation {x : InvocationId} (hx : s.backend.Stored x) :
    slotKey d (s.backend.upsertInvocation invocation call) x = slotKey d s.backend x := by
  have hext := upsertInvocation_extends h hsubmission hid htask hcallId hcall
  obtain ⟨old, hlookup⟩ := hx
  obtain ⟨new, hlookup', htask', hcallId'⟩ := hext.invocations x old hlookup
  obtain ⟨other, -, -, -, -, hcalls⟩ := h.invocations x old hlookup
  have hcalls' := hext.calls _ _ hcalls
  rw [slotKey, slotKey, hlookup, hlookup']
  dsimp only
  rw [htask', hcallId', hcalls, hcalls']

end Upsert

/-! ### Taking a slot -/

/-- **The step that could overbook.**  If the other occupants of the key are indexed,
a granted slot leaves at most the limit of occupants. -/
theorem Bounded.acquire (h : Bounded d s (before ++ g :: after))
    (hconfig : d.catalog.registry taskId = some config)
    (hkey : slotKey d s.backend id = some (taskId, ccArgs))
    (hindexed : ∀ x, x ≠ id → Occupies d s (before ++ g :: after) (taskId, ccArgs) x →
      ∀ pair ∈ (ccArgs.getD .empty).ccArgPairs,
        x ∈ s.orchestrator.indexed (taskId, pair.1, pair.2))
    (hgranted : (s.orchestrator.tryAcquireConcurrencySlot id taskId config ccArgs).1 = true)
    (hbackend : s'.backend = s.backend)
    (hrecords : s'.orchestrator.statusRecords = s.orchestrator.statusRecords) :
    Bounded d s' (before ++ { g with admitted := some id } :: after) := by
  have hold : ∀ key x, x ≠ id →
      Occupies d s' (before ++ { g with admitted := some id } :: after) key x →
      Occupies d s (before ++ g :: after) key x := by
    rintro key x hne ⟨hslot, hby⟩
    refine ⟨by rw [← hbackend]; exact hslot, hby.imp (fun howned => ?_) ?_⟩
    · rw [OrchestratorState.statusOf, hrecords] at howned
      exact howned
    · rintro ⟨y, hy, hadm⟩
      rcases mem_replace hy with hy | rfl
      · exact ⟨y, hy, hadm⟩
      · exact absurd (Option.some.inj hadm).symm hne
  intro taskId' config' ccArgs' hconfig' hlimited occupants hoccupants
  by_cases hmem : id ∈ occupants
  · -- the new occupant has the key of the request
    have hslot := (hoccupants id hmem).1
    rw [hbackend, hkey] at hslot
    cases hslot
    rw [hconfig] at hconfig'
    cases hconfig'
    have hothers : (occupants.erase id).card < config.limit := by
      refine s.orchestrator.card_lt_limit_of_granted hlimited hgranted fun x hx => ?_
      obtain ⟨hne, hx⟩ := Finset.mem_erase.mp hx
      exact ⟨hne, hindexed x hne (hold _ x hne (hoccupants x hx))⟩
    have := Finset.card_erase_add_one hmem
    omega
  · refine h taskId' config' ccArgs' hconfig' hlimited occupants fun x hx => ?_
    exact hold _ x (fun hne => hmem (hne ▸ hx)) (hoccupants x hx)

/-! ### Every call -/

/-- Both halves of the invariant. -/
structure Accounts (d : Deployment) (s : MemRuntime) (books : List Ledger) : Prop where
  filed : Filed s books
  bounded : Bounded d s books

/-- A call that changes no table, no status and no admission. -/
theorem Accounts.frame (h : Accounts d s (before ++ g :: after))
    (hbackend : s'.backend.invocations = s.backend.invocations ∧
      s'.backend.calls = s.backend.calls)
    (hrecords : s'.orchestrator.statusRecords = s.orchestrator.statusRecords)
    (hbook : g'.submission = g.submission ∧ g'.admitted = g.admitted)
    (hqueued : ∀ id, s'.broker.Queued id → s.broker.Queued id ∨ s.backend.Stored id)
    (hwaited : ∀ id ∈ s'.orchestrator.waiters, id ∈ s.orchestrator.waiters ∨ s.backend.Stored id)
    (hledger : g'.Justified s.backend) : Accounts d s' (before ++ g' :: after) := by
  have howned : ∀ id, ∀ status ∈ s'.orchestrator.statusOf id, status.Owned →
      ∃ status ∈ s.orchestrator.statusOf id, status.Owned := by
    intro id status hstatus howner
    rw [OrchestratorState.statusOf, hrecords] at hstatus
    exact ⟨status, hstatus, howner⟩
  constructor
  · exact h.filed.step hbackend.1 hbackend.2 hbook.1 hqueued hwaited
      (fun id status hstatus howner => .inl (howned id status hstatus howner)) hledger
  · refine h.bounded.step (fun id key hkey _ => ?_)
      (fun id status hstatus howner => .inl (howned id status hstatus howner))
      fun id hid => hbook.2 ▸ hid
    rw [← slotKey_eq hbackend.1 hbackend.2]
    exact hkey

variable (env : Env) (h : Accounts d s (before ++ g :: after))
include h

theorem Accounts.ledger : g.Justified s.backend :=
  h.filed.ledgers g (by simp)

/-- A call that changes nothing but an operation's notes. -/
theorem Accounts.note (hbook : g'.submission = g.submission ∧ g'.admitted = g.admitted)
    (hledger : g'.Justified s.backend) : Accounts d s (before ++ g' :: after) :=
  h.frame ⟨rfl, rfl⟩ rfl hbook (fun _ => .inl) (fun _ => .inl) hledger

theorem Accounts.known (ids : List InvocationId) (hids : ∀ id ∈ ids, s.backend.Stored id) :
    Ledger.Justified { g with known := ids ++ g.known } s.backend := by
  refine ⟨fun id hid => ?_, h.ledger.invocations, h.ledger.calls, h.ledger.admitted⟩
  exact (List.mem_append.mp hid).elim (hids id) (h.ledger.known id)

theorem accounts_register (id : InvocationId) (call : CallDTO) (runnerId : Option RunnerId) :
    Accounts d (MemRuntime.exec env (.registerInvocationWithId id call runnerId) s).2
      (before ++ g :: after) := by
  have howned : ∀ x, ∀ status ∈ (MemRuntime.exec env (.registerInvocationWithId id call runnerId)
      s).2.orchestrator.statusOf x, status.Owned →
      ∃ status ∈ s.orchestrator.statusOf x, status.Owned := by
    intro x status hstatus howner
    rw [s.orchestrator.statusOf_of_insert id _ rfl x] at hstatus
    split at hstatus
    · cases hstatus
      simp [InvocationStatus.Owned] at howner
    · exact ⟨status, hstatus, howner⟩
  constructor
  · exact h.filed.step rfl rfl rfl (fun _ => .inl) (fun _ => .inl)
      (fun x status hstatus howner => .inl (howned x status hstatus howner)) h.ledger
  · exact h.bounded.step (fun _ _ hkey _ => hkey)
      (fun x status hstatus howner => .inl (howned x status hstatus howner)) fun _ hid => hid

theorem accounts_upsert {invocation : InvocationDTO} {call : CallDTO}
    (hpre : (admission d).pre (.upsertInvocation invocation call) g) :
    Accounts d (MemRuntime.exec env (.upsertInvocation invocation call) s).2
      (before ++ { g with known := invocation.invocationId :: g.known } :: after) := by
  obtain ⟨submission, hsubmission, hid, htask, hcallId, hcall⟩ := hpre
  constructor
  · exact h.filed.upsert hsubmission hid htask hcallId hcall rfl rfl rfl
  · refine h.bounded.step (fun x key hkey hby => ?_)
      (fun x status hstatus howner => .inl ⟨status, hstatus, howner⟩) fun _ hid => hid
    -- only what was stored before can be owned or admitted
    have hstored : s.backend.Stored x := by
      rcases hby with ⟨status, hstatus, howner⟩ | ⟨y, hy, hadmitted⟩
      · exact h.filed.owned x status hstatus howner
      · rcases mem_replace hy with hy | rfl
        · exact (h.filed.ledgers y hy).admitted x hadmitted
        · exact h.ledger.admitted x hadmitted
    rw [← slotKey_upsertInvocation h.filed hsubmission hid htask hcallId hcall hstored]
    exact hkey

theorem accounts_retrieve (language : TaskLanguage) (queue : String) :
    Accounts d
      (MemRuntime.exec env (.retrieveInvocationForLanguageFromQueue language queue) s).2
      (before ++ Ledger.next (.retrieveInvocationForLanguageFromQueue language queue)
        (MemRuntime.exec env (.retrieveInvocationForLanguageFromQueue language queue) s).1 g ::
        after) := by
  obtain ⟨e, heq⟩ | heq | ⟨id, b', heq, hqueued, -, hkept⟩ :=
    s.broker.retrieve_cases env.clock language queue
  · simp only [MemRuntime.exec, heq]
    exact h
  · simp only [MemRuntime.exec, heq]
    exact h
  · simp only [MemRuntime.exec, heq]
    refine h.frame ⟨rfl, rfl⟩ rfl ⟨rfl, rfl⟩ (fun x hx => .inl (hkept x hx)) (fun _ => .inl)
      (h.known [id] ?_)
    intro x hx
    obtain rfl := List.mem_singleton.mp hx
    exact h.filed.queued x hqueued

theorem accounts_getBlocking (maxNum : Nat) :
    Accounts d (MemRuntime.exec env (.getBlockingInvocations maxNum) s).2
      (before ++ { g with known := s.orchestrator.getBlockingInvocations env.order maxNum ++
        g.known } :: after) := by
  refine h.note ⟨rfl, rfl⟩ (h.known _ fun id hid => h.filed.waited id ?_)
  exact (OrchestratorState.isBlockingCandidate_of_mem hid).1

/-- A permitted claim is of a stored invocation, admitted or without limit. -/
theorem claim_of_pre (hpre : g.admitted = some id ∨ g.Unlimited d id) :
    s.backend.Stored id ∧ (g.admitted = some id ∨ Unbounded d s.backend id) := by
  rcases hpre with hadmitted | ⟨read, hread, hunlimited⟩
  · exact ⟨h.ledger.admitted id hadmitted, .inl hadmitted⟩
  · obtain ⟨invocation, hlookup, htask, -⟩ := h.ledger.invocations _ hread
    refine ⟨⟨invocation, hlookup⟩, .inr fun taskId ccArgs config hkey hconfig => ?_⟩
    refine hunlimited config ?_
    have hsame : invocation.taskId = taskId := by
      rw [slotKey, hlookup] at hkey
      dsimp only at hkey
      split at hkey
      · exact congrArg Prod.fst (Option.some.inj hkey)
      · cases hkey
    rw [← htask, hsame]
    exact hconfig

theorem accounts_setInvocationStatus {status : InvocationStatus} {runnerId : Option RunnerId}
    (hpre : (admission d).pre (.setInvocationStatus id status runnerId) g) :
    Accounts d (MemRuntime.exec env (.setInvocationStatus id status runnerId) s).2
      (before ++ Ledger.next (.setInvocationStatus id status runnerId)
        (MemRuntime.exec env (.setInvocationStatus id status runnerId) s).1 g :: after) := by
  rw [Ledger.next_setInvocationStatus]
  generalize hreleased : (if status = .pending then none else g.admitted) = admitted
  have hadmitted : ∀ x, admitted = some x → g.admitted = some x := by
    intro x hx
    rw [← hreleased] at hx
    split at hx
    · cases hx
    · exact hx
  have hledger : Ledger.Justified { g with admitted := admitted } s.backend :=
    ⟨h.ledger.known, h.ledger.invocations, h.ledger.calls, fun x hx =>
      h.ledger.admitted x (hadmitted x hx)⟩
  have hnote : Accounts d s (before ++ { g with admitted := admitted } :: after) := by
    constructor
    · exact h.filed.step rfl rfl rfl (fun _ => .inl) (fun _ => .inl)
        (fun x status hstatus howner => .inl ⟨status, hstatus, howner⟩) hledger
    · exact h.bounded.step (fun _ _ hkey _ => hkey)
        (fun x status hstatus howner => .inl ⟨status, hstatus, howner⟩) hadmitted
  obtain ⟨current, record, ccIndex, ccReverse, hlookup, htrans, heq⟩ | ⟨_, _, -, -, heq⟩ |
    ⟨-, heq⟩ := s.orchestrator.setInvocationStatus_cases env.clock id status runnerId
  · simp only [MemRuntime.exec, heq]
    obtain ⟨hcan, -, rfl⟩ := (statusRecordTransition_ok_iff _ _ _ _ _).mp htrans
    have howned : ∀ x, ∀ written ∈ OrchestratorState.statusOf { s.orchestrator with
          statusRecords := s.orchestrator.statusRecords.insert id
            ⟨status, computeNewOwner (some current) status runnerId, env.clock⟩
          ccIndex := ccIndex
          ccReverse := ccReverse } x, written.Owned →
        (∃ status ∈ s.orchestrator.statusOf x, status.Owned) ∨
          s.backend.Stored x ∧ (g.admitted = some x ∨ Unbounded d s.backend x) := by
      intro x written hwritten howner
      rw [s.orchestrator.statusOf_of_insert id _ rfl x] at hwritten
      split at hwritten
      · rename_i hx
        subst hx
        obtain rfl : status = written := by simpa using hwritten
        rcases howner with rfl | howner
        · exact .inr (claim_of_pre h (hpre rfl))
        · refine .inl ⟨current.status, ?_,
            InvocationStatus.owned_of_canTransitionTo_owned hcan howner⟩
          rw [OrchestratorState.statusOf, hlookup]
          rfl
      · exact .inl ⟨written, hwritten, howner⟩
    constructor
    · exact h.filed.step rfl rfl rfl (fun _ => .inl) (fun _ => .inl)
        (fun x written hwritten howner => (howned x written hwritten howner).imp_right And.left)
        hledger
    · exact h.bounded.step (fun _ _ hkey _ => hkey)
        (fun x written hwritten howner => (howned x written hwritten howner).imp_right And.right)
        hadmitted
  · simp only [MemRuntime.exec, heq]
    exact hnote
  · simp only [MemRuntime.exec, heq]
    exact hnote

/-- A slot is asked for under the key of the invocation. -/
theorem slotKey_of_mayAcquire (hpre : g.MayAcquire d id taskId config ccArgs) :
    s.backend.Stored id ∧ slotKey d s.backend id = some (taskId, ccArgs) := by
  obtain ⟨read, call, hread, hcall, rfl, hconfig, -, rfl⟩ := hpre
  obtain ⟨invocation, hlookup, htask, hcallId⟩ := h.ledger.invocations _ hread
  have hcalls := h.ledger.calls _ hcall
  refine ⟨⟨invocation, hlookup⟩, ?_⟩
  rw [slotKey, hlookup]
  dsimp only
  rw [htask, hcallId, hconfig, hcalls]

theorem accounts_tryAcquire (hpre : g.MayAcquire d id taskId config ccArgs)
    (hindexed : ∀ x, x ≠ id → Occupies d s (before ++ g :: after) (taskId, ccArgs) x →
      ∀ pair ∈ (ccArgs.getD .empty).ccArgPairs,
        x ∈ s.orchestrator.indexed (taskId, pair.1, pair.2)) :
    Accounts d (MemRuntime.exec env (.tryAcquireConcurrencySlot id taskId config ccArgs) s).2
      (before ++ Ledger.next (.tryAcquireConcurrencySlot id taskId config ccArgs)
        (MemRuntime.exec env (.tryAcquireConcurrencySlot id taskId config ccArgs) s).1 g ::
        after) := by
  obtain ⟨hstored, hkey⟩ := slotKey_of_mayAcquire h hpre
  obtain ⟨-, -, -, -, -, hconfig, -, -⟩ := hpre
  obtain ⟨ccIndex, ccReverse, hstate⟩ :=
    s.orchestrator.tryAcquireConcurrencySlot_eq id taskId config ccArgs
  simp only [MemRuntime.exec, hstate]
  cases hgranted : (s.orchestrator.tryAcquireConcurrencySlot id taskId config ccArgs).1 with
  | false => exact h.frame ⟨rfl, rfl⟩ rfl ⟨rfl, rfl⟩ (fun _ => .inl) (fun _ => .inl) h.ledger
  | true =>
      constructor
      · refine h.filed.step rfl rfl rfl (fun _ => .inl) (fun _ => .inl)
          (fun x status hstatus howner => .inl ⟨status, hstatus, howner⟩)
          ⟨h.ledger.known, h.ledger.invocations, h.ledger.calls, fun x hx => ?_⟩
        obtain rfl : id = x := Option.some.inj hx
        exact hstored
      · exact h.bounded.acquire hconfig hkey hindexed hgranted rfl rfl

theorem accounts_getInvocation (id : InvocationId) :
    Accounts d s (before ++ Ledger.next (.getInvocation id) (s.backend.getInvocation id) g ::
      after) := by
  unfold BackendState.getInvocation
  cases hlookup : s.backend.invocations.lookup id with
  | none => exact h
  | some invocation =>
      refine h.note ⟨rfl, rfl⟩ ⟨fun x hx => ?_, fun read hread => ?_, h.ledger.calls,
        h.ledger.admitted⟩
      · rcases List.mem_cons.mp hx with rfl | hx
        · exact ⟨invocation, hlookup⟩
        · exact h.ledger.known x hx
      · rcases List.mem_cons.mp hread with rfl | hread
        · exact ⟨invocation, hlookup, rfl, rfl⟩
        · exact h.ledger.invocations read hread

theorem accounts_getCall (callId : CallId) :
    Accounts d s (before ++ Ledger.next (.getCall callId) (s.backend.getCall callId) g ::
      after) := by
  unfold BackendState.getCall
  cases hlookup : s.backend.calls.lookup callId with
  | none => exact h
  | some call =>
      refine h.note ⟨rfl, rfl⟩ ⟨h.ledger.known, h.ledger.invocations, fun read hread => ?_,
        h.ledger.admitted⟩
      rcases List.mem_cons.mp hread with rfl | hread
      · exact hlookup
      · exact h.ledger.calls read hread

/-- What was noted down can be read again. -/
theorem accounts_resp (c : PortCall) :
    (admission d).resp c g (MemRuntime.exec env c s).1 := by
  cases c <;> first | trivial | skip
  case setInvocationStatus id status runnerId =>
      exact exec_truthful env (.setInvocationStatus id status runnerId) s
  case getInvocation id =>
      intro hknown
      obtain ⟨invocation, hlookup⟩ := h.ledger.known id hknown
      exact ⟨invocation, by simp [MemRuntime.exec, BackendState.getInvocation, hlookup]⟩
  case getCall callId =>
      rintro ⟨read, hread, rfl⟩
      obtain ⟨invocation, hlookup, -, hcallId⟩ := h.ledger.invocations read hread
      obtain ⟨submission, -, -, -, -, hcall⟩ := h.filed.invocations _ _ hlookup
      rw [hcallId] at hcall
      exact ⟨submission.call, by simp [MemRuntime.exec, BackendState.getCall, hcall]⟩

theorem accounts_exec (c : PortCall) (hpre : (admission d).pre c g)
    (hindexed : ∀ id taskId config ccArgs, c = .tryAcquireConcurrencySlot id taskId config ccArgs →
      ∀ x, x ≠ id → Occupies d s (before ++ g :: after) (taskId, ccArgs) x →
        ∀ pair ∈ (ccArgs.getD .empty).ccArgPairs,
          x ∈ s.orchestrator.indexed (taskId, pair.1, pair.2)) :
    Accounts d (MemRuntime.exec env c s).2
      (before ++ (admission d).next c (MemRuntime.exec env c s).1 g :: after) := by
  cases c <;> first
    | exact h.frame ⟨rfl, rfl⟩ rfl ⟨rfl, rfl⟩ (fun _ => .inl) (fun _ => .inl) h.ledger
    | skip
  case registerInvocationWithId id call runnerId =>
      exact accounts_register env h id call runnerId
  case setInvocationStatus id status runnerId => exact accounts_setInvocationStatus env h hpre
  case setWaitingFor waiter waitedOn =>
      refine h.frame ⟨rfl, rfl⟩ rfl ⟨rfl, rfl⟩ (fun _ => .inl) (fun x hx => ?_) h.ledger
      rcases (AList.mem_insert _).mp hx with rfl | hx
      · exact .inr (h.ledger.known x hpre)
      · exact .inl hx
  case releaseWaiters completed =>
      refine h.frame ⟨rfl, rfl⟩ rfl ⟨rfl, rfl⟩ (fun _ => .inl) (fun x hx => ?_) h.ledger
      exact .inl (AList.mem_erase.mp hx).2
  case getBlockingInvocations maxNum => exact accounts_getBlocking env h maxNum
  case tryAcquireConcurrencySlot id taskId config ccArgs =>
      exact accounts_tryAcquire env h hpre (hindexed id taskId config ccArgs rfl)
  case removeFromConcurrencyIndex id =>
      obtain ⟨ccIndex, ccReverse, hstate⟩ := s.orchestrator.removeFromConcurrencyIndex_eq id
      simp only [MemRuntime.exec, hstate]
      exact h.frame ⟨rfl, rfl⟩ rfl ⟨rfl, rfl⟩ (fun _ => .inl) (fun _ => .inl) h.ledger
  case upsertInvocation invocation call => exact accounts_upsert env h hpre
  case getInvocation id => exact accounts_getInvocation h id
  case getCall callId => exact accounts_getCall h callId
  case routeInvocationWithOptions id taskId queue priority =>
      refine h.frame ⟨rfl, rfl⟩ rfl ⟨rfl, rfl⟩ (fun x hx => ?_) (fun _ => .inl) h.ledger
      refine (s.broker.queued_of_routeInvocationWithOptions hx).imp_right ?_
      rintro rfl
      exact h.ledger.known id hpre
  case routeInvocationAfter id taskId queue priority delayMs =>
      refine h.frame ⟨rfl, rfl⟩ rfl ⟨rfl, rfl⟩ (fun x hx => ?_) (fun _ => .inl) h.ledger
      refine (s.broker.queued_of_routeInvocationAfter hx).imp_right ?_
      rintro rfl
      exact h.ledger.known id hpre
  case retrieveInvocationForLanguageFromQueue language queue =>
      exact accounts_retrieve env h language queue

end Steps

/-! ## Runs -/

/-- Invocation ids are fresh, calls do not share a digest by accident, and only
stored invocations are waited for. -/
def orderly : Guard ports MemRuntime Operation where
  start s op := Considered op ∧
    (∀ submission ∈ op.submission?, ∀ t ∈ s.threads, ∀ earlier ∈ t.task.submission?,
      earlier.invocationId ≠ submission.invocationId ∧
        (earlier.call.callId = submission.call.callId → earlier.call = submission.call)) ∧
    ∀ id ∈ op.waitedOn?, (s.shared.backend.invocations.lookup id).isSome = true
  call _ _ _ := True

/-- The stored invocations that occupy a slot under this key. -/
def occupants (d : Deployment) (s : System ports MemRuntime Operation)
    (key : TaskId × Option SerializedArguments) : Finset InvocationId :=
  s.shared.backend.invocations.keys.toFinset.filter fun id =>
    slotKey d s.shared.backend id = some key ∧
      ((∃ status ∈ s.shared.orchestrator.statusOf id, status.Owned) ∨
        ∃ t ∈ s.threads, ((admission d).book t).admitted = some id)

/-- Whenever a slot is asked for, every other occupant of the key is in the index. -/
def slotsIndexed (d : Deployment) : Guard ports MemRuntime Operation where
  start _ _ := True
  call s _ c := ∀ request ∈ c.slotRequest?, ∀ x ∈ occupants d s request.2, x ≠ request.1 →
    ∀ pair ∈ (request.2.2.getD .empty).ccArgPairs,
      x ∈ s.shared.orchestrator.indexed (request.2.1, pair.1, pair.2)

/-- The invocation belongs to this worker. -/
def OwnedBy (s : MemRuntime) (id : InvocationId) (worker : RunnerId) : Prop :=
  ∃ record ∈ s.orchestrator.statusRecords.lookup id,
    record.status.Owned ∧ record.runnerId = some worker

/-- While an invocation belongs to a worker, its slot is given back in a round of this worker
only. -/
def releasedByOwner : Guard ports MemRuntime Operation where
  start _ _ := True
  call s i c := ∀ id ∈ c.slotRelease?, ∀ t ∈ s.threads[i]?,
    ∀ record ∈ s.shared.orchestrator.statusRecords.lookup id, record.status.Owned →
      record.runnerId = t.task.worker?

/-- The runs in which slots are where the admissions count them. -/
def slotsKept (d : Deployment) : Guard ports MemRuntime Operation :=
  (orderly.and (slotsIndexed d)).and releasedByOwner

instance (s : MemRuntime) (id : InvocationId) (worker : RunnerId) :
    Decidable (OwnedBy s id worker) :=
  inferInstanceAs (Decidable (∃ _ ∈ s.orchestrator.statusRecords.lookup id, _))

instance (s : System ports MemRuntime Operation) (op : Operation) :
    Decidable (orderly.start s op) :=
  inferInstanceAs (Decidable (_ ∧ (∀ _ ∈ op.submission?, _) ∧ ∀ _ ∈ op.waitedOn?, _))

instance (s : System ports MemRuntime Operation) (i : Nat) (c : PortCall) :
    Decidable (orderly.call s i c) :=
  inferInstanceAs (Decidable True)

instance (d : Deployment) (s : System ports MemRuntime Operation) (op : Operation) :
    Decidable ((slotsIndexed d).start s op) :=
  inferInstanceAs (Decidable True)

instance (d : Deployment) (s : System ports MemRuntime Operation) (i : Nat) (c : PortCall) :
    Decidable ((slotsIndexed d).call s i c) :=
  inferInstanceAs (Decidable (∀ request ∈ c.slotRequest?, _))

instance (d : Deployment) (s : System ports MemRuntime Operation) (op : Operation) :
    Decidable ((slotsKept d).start s op) :=
  inferInstanceAs (Decidable ((orderly.start s op ∧ (slotsIndexed d).start s op) ∧ True))

instance (d : Deployment) (s : System ports MemRuntime Operation) (i : Nat) (c : PortCall) :
    Decidable ((slotsKept d).call s i c) :=
  inferInstanceAs (Decidable ((orderly.call s i c ∧ (slotsIndexed d).call s i c) ∧
    ∀ id ∈ c.slotRelease?, ∀ t ∈ s.threads[i]?,
      ∀ record ∈ s.shared.orchestrator.statusRecords.lookup id, record.status.Owned →
        record.runnerId = t.task.worker?))

/-- The stored invocations that run under this key. -/
def running (d : Deployment) (s : MemRuntime) (key : TaskId × Option SerializedArguments) :
    Finset InvocationId :=
  s.backend.invocations.keys.toFinset.filter fun id =>
    slotKey d s.backend id = some key ∧ s.orchestrator.statusOf id = some .running

variable {s : System ports MemRuntime Operation} {d : Deployment}

theorem mem_occupants {key : TaskId × Option SerializedArguments} {id : InvocationId}
    (h : Occupies d s.shared (s.books (admission d).toMonitor) key id) : id ∈ occupants d s key := by
  obtain ⟨hkey, hby⟩ := h
  refine Finset.mem_filter.mpr ⟨?_, hkey, hby.imp (fun h => h) ?_⟩
  · rw [List.mem_toFinset, ← AList.mem_keys]
    by_contra hnot
    rw [slotKey, AList.lookup_eq_none.mpr hnot] at hkey
    cases hkey
  · rintro ⟨g, hg, hadmitted⟩
    obtain ⟨t, ht, rfl⟩ := List.mem_map.mp hg
    exact ⟨t, ht, hadmitted⟩

/-- The submission of a ledger is the one the operation was started with. -/
theorem book_submission (d : Deployment) (t : Thread ports Operation) :
    ((admission d).book t).submission = t.task.submission? := by
  refine (admission d).book_field Ledger.submission (fun c r g => ?_) t
  change (Ledger.next c r g).submission = _
  unfold Ledger.next
  split <;> rfl

/-- Starting an operation in an orderly way keeps the accounts. -/
theorem accounts_start {op : Operation} (hstart : orderly.start s op)
    (h : Accounts d s.shared (s.books (admission d).toMonitor)) :
    Accounts d s.shared (s.books (admission d).toMonitor ++ [Ledger.open op]) := by
  obtain ⟨-, hfresh, hwaited⟩ := hstart
  set books := s.books (admission d).toMonitor with hbooks
  have hsubmitted : ∀ submission, Submitted (books ++ [Ledger.open op]) submission →
      Submitted books submission ∨ submission ∈ op.submission? := by
    rintro submission ⟨g, hg, hsub⟩
    rcases List.mem_append.mp hg with hg | hg
    · exact .inl ⟨g, hg, hsub⟩
    · rw [List.mem_singleton.mp hg] at hsub
      exact .inr hsub
  have hkept : ∀ submission, Submitted books submission →
      Submitted (books ++ [Ledger.open op]) submission :=
    fun submission ⟨g, hg, hsub⟩ => ⟨g, List.mem_append_left _ hg, hsub⟩
  -- a started submission against an earlier one
  have hapart : ∀ earlier submission, Submitted books earlier → submission ∈ op.submission? →
      earlier.invocationId ≠ submission.invocationId ∧
        (earlier.call.callId = submission.call.callId → earlier.call = submission.call) := by
    rintro earlier submission ⟨g, hg, hsub⟩ hop
    obtain ⟨t, ht, rfl⟩ := List.mem_map.mp hg
    rw [book_submission] at hsub
    exact hfresh submission hop t ht earlier hsub
  refine ⟨⟨?_, ?_, ?_, h.filed.queued, h.filed.waited, h.filed.owned, ?_⟩, ?_⟩
  · intro left right hleft hright
    rcases hsubmitted left hleft with hleft | hleft <;>
      rcases hsubmitted right hright with hright | hright
    · exact h.filed.coherent left right hleft hright
    · have := hapart left right hleft hright
      exact ⟨fun hid => absurd hid this.1, this.2⟩
    · have := hapart right left hright hleft
      exact ⟨fun hid => absurd hid.symm this.1, fun hid => (this.2 hid.symm).symm⟩
    · rw [Option.mem_def] at hleft hright
      rw [hleft] at hright
      cases hright
      exact ⟨fun _ => rfl, fun _ => rfl⟩
  · intro id invocation hlookup
    obtain ⟨submission, hsub, hrest⟩ := h.filed.invocations id invocation hlookup
    exact ⟨submission, hkept _ hsub, hrest⟩
  · intro callId call hlookup
    obtain ⟨submission, hsub, hrest⟩ := h.filed.calls callId call hlookup
    exact ⟨submission, hkept _ hsub, hrest⟩
  · intro g hg
    rcases List.mem_append.mp hg with hg | hg
    · exact h.filed.ledgers g hg
    · rw [List.mem_singleton.mp hg]
      refine ⟨fun id hid => ?_, by simp [Ledger.open], by simp [Ledger.open],
        by simp [Ledger.open]⟩
      obtain ⟨invocation, hlookup⟩ := Option.isSome_iff_exists.mp
        (hwaited id (Option.mem_toList.mp hid))
      exact ⟨invocation, hlookup⟩
  · intro taskId config ccArgs hconfig hlimited occupants hoccupants
    refine h.bounded taskId config ccArgs hconfig hlimited occupants fun id hid => ?_
    obtain ⟨hkey, hby⟩ := hoccupants id hid
    refine ⟨hkey, hby.imp_right ?_⟩
    rintro ⟨g, hg, hadmitted⟩
    rcases List.mem_append.mp hg with hg | hg
    · exact ⟨g, hg, hadmitted⟩
    · rw [List.mem_singleton.mp hg] at hadmitted
      cases hadmitted

theorem reachable_accounts (hd : d.publication = false)
    (hreach : Reachable (memMachine d) (orderly.and (slotsIndexed d)) memStart s) :
    Accounts d s.shared (s.books (admission d).toMonitor) := by
  refine ((admission d).invariant (fun _ => True) (Accounts d) ?_ ?_ ?_ ?_ hreach).2
  · intro _ op hstart
    exact program_files hd hstart.1.1
  · refine ⟨by simp [Discipline.AllObey, memStart], ⟨?_, ?_, ?_, ?_, ?_, ?_, ?_⟩, ?_⟩
    · rintro left right ⟨g, hg, -⟩
      cases hg
    · intro id invocation hlookup
      cases hlookup
    · intro callId call hlookup
      cases hlookup
    · rintro id ⟨item, hitem, -⟩
      cases hitem
    · intro id hid
      exact absurd hid (AList.notMem_empty id)
    · intro id status hstatus
      cases hstatus
    · intro g hg
      cases hg
    · intro taskId config ccArgs _ _ occupants hoccupants
      have hempty : occupants = ∅ := by
        refine Finset.eq_empty_of_forall_notMem fun id hid => ?_
        obtain ⟨hkey, -⟩ := hoccupants id hid
        cases hkey
      simp [hempty]
  · intro s op hstart hinv
    exact accounts_start hstart.1 hinv
  · intro s i env t c before after hturn hinv
    refine ⟨accounts_resp env hinv c, accounts_exec env hinv c hturn.permitted ?_⟩
    rintro id taskId config ccArgs rfl x hne hoccupies
    rw [← hturn.books] at hoccupies
    exact hturn.allowed.2 (id, taskId, ccArgs) rfl x (mem_occupants hoccupies) hne

/-- **Who can take a slot away.**  A call other than `remove_from_concurrency_index` leaves the
slot of an invocation that stays its worker's. -/
theorem OwnedBy.keepsSlot {env : Env} {s : MemRuntime} {c : PortCall} {id : InvocationId}
    {worker : RunnerId} {key : CcKey} (howned : OwnedBy (MemRuntime.exec env c s).2 id worker)
    (hrelease : id ∉ c.slotRelease?) (h : id ∈ s.orchestrator.indexed key) :
    id ∈ (MemRuntime.exec env c s).2.orchestrator.indexed key := by
  cases c <;> first
    | exact h
    | skip
  case setInvocationStatus x status runnerId =>
      obtain ⟨record, hrecord, hstatus, -⟩ := howned
      change record ∈ (s.orchestrator.setInvocationStatus env.clock x status
        runnerId).2.statusRecords.lookup id at hrecord
      change id ∈ (s.orchestrator.setInvocationStatus env.clock x status runnerId).2.indexed key
      unfold OrchestratorState.setInvocationStatus at hrecord ⊢
      split
      · exact h
      · rename_i current hcurrent
        simp only [hcurrent] at hrecord
        split
        · exact h
        · rename_i written hwritten
          simp only [hwritten] at hrecord
          split
          · -- a terminal status is nobody's
            rename_i hterminal
            rw [if_pos hterminal] at hrecord
            refine OrchestratorState.mem_indexed_remove_of_ne ?_ h
            rintro rfl
            rw [OrchestratorState.removeFromConcurrencyIndex_statusRecords] at hrecord
            obtain rfl := Option.some.inj ((AList.lookup_insert _).symm.trans hrecord)
            obtain ⟨-, -, rfl⟩ := (statusRecordTransition_ok_iff _ _ _ _ _).mp hwritten
            have hnobody : ∀ status : InvocationStatus, status.isTerminal = true →
                ¬ status.Owned := by decide
            exact hnobody status hterminal hstatus
          · exact h
  case tryAcquireConcurrencySlot x taskId config ccArgs =>
      exact OrchestratorState.mem_indexed_tryAcquire h x taskId config ccArgs
  case removeFromConcurrencyIndex x =>
      refine OrchestratorState.mem_indexed_remove_of_ne ?_ h
      rintro rfl
      exact hrelease rfl

/-- **The concurrency limit.**  In every interleaving of submitters, workers, recoveries,
cancellations and waits in which each admission finds the other occupants of its key in
the index, and no slot is given back by a worker while the invocation is another's, no more
invocations of a limited task run under one key than its limit; and no step of another
operation takes the slot of an invocation out of the index while it stays its worker's. -/
theorem running_le_limit {d : Deployment} (hd : d.publication = false)
    {s : System ports MemRuntime Operation}
    (hreach : Reachable (memMachine d) (slotsKept d) memStart s) :
    (∀ taskId config, d.catalog.registry taskId = some config →
      config.concurrencyControl ≠ .unlimited → ∀ ccArgs : Option SerializedArguments,
        (running d s.shared (taskId, ccArgs)).card ≤ config.limit) ∧
    ∀ i env s', (slotsKept d).Allows s (.step i env) →
      s.apply (memMachine d) (.step i env) = some s' → ∀ t ∈ s.threads[i]?, ∀ id worker,
        t.task.worker? ≠ some worker → OwnedBy s.shared id worker → OwnedBy s'.shared id worker →
          ∀ key, id ∈ s.shared.orchestrator.indexed key →
            id ∈ s'.shared.orchestrator.indexed key := by
  constructor
  · intro taskId config hconfig hlimited ccArgs
    have hindexed : Reachable (memMachine d) (orderly.and (slotsIndexed d)) memStart s :=
      Reachable.mono (fun _ _ h => And.left h) (fun _ _ _ h => And.left h) hreach
    refine (reachable_accounts hd hindexed).bounded taskId config ccArgs hconfig hlimited _ ?_
    intro id hid
    obtain ⟨-, hkey, hrunning⟩ := Finset.mem_filter.mp hid
    exact ⟨hkey, .inl ⟨.running, hrunning, .inr (.inl rfl)⟩⟩
  · intro i env s' hallowed hstep t ht id worker hother howned howned' key hindexed
    obtain ⟨_, hlabel, -⟩ | ⟨j, env', t', c, k, hlabel, ht', hprog, rfl⟩ :=
      System.apply_cases hstep
    · cases hlabel
    · obtain ⟨rfl, rfl⟩ := Label.step.inj hlabel
      obtain rfl := Option.some.inj (ht'.symm.trans ht)
      refine OwnedBy.keepsSlot howned' (fun hrelease => hother ?_) hindexed
      obtain ⟨record, hrecord, hstatus, hrunner⟩ := howned
      have hnext : t'.next? = some c := by rw [Thread.next?, hprog]
      -- a release takes effect in the owner's round, so the operation is the worker's
      have hown := (hallowed t' ht' c hnext).2 id hrelease t' ht' record hrecord hstatus
      exact hown.symm.trans hrunner

/-! ### A slot taken away -/

/-- `a` and `b` are submitted, something waits on `a`, and the first worker takes `a`
from among the waited-for candidates: its queue entry stays behind. -/
def waitedForRuns : List (Label Env Operation) :=
  [.start (submitSerial "a"), .start (submitSerial "b")] ++ Label.steps 0 6 idleEnv ++
    Label.steps 1 6 idleEnv ++ .start (.waitFor ⟨"parent"⟩ ⟨"a"⟩) :: Label.steps 2 1 idleEnv ++
    .start (.work .rust ⟨"w1"⟩) :: Label.steps 3 9 idleEnv

/-- A second worker dequeues `a`, loses the claim and gives "its" slot back; a third
one admits `b`. -/
def duplicateDelivery : List (Label Env Operation) :=
  .start (.work .rust ⟨"w2"⟩) :: Label.steps 4 8 idleEnv ++
    .start (.work .rust ⟨"w3"⟩) :: Label.steps 5 9 idleEnv

/-- While a second worker begins its round the limit is kept, and `a` keeps its slot. -/
theorem running_le_limit_waitedForRuns :
    ∃ s s', Reachable (memMachine serialDeployment) (slotsKept serialDeployment) memStart s ∧
      s.shared.orchestrator.statusOf ⟨"a"⟩ = some .running ∧
      (running serialDeployment s.shared (serialTask, some .empty)).card ≤ serialConfig.limit ∧
      s.apply (memMachine serialDeployment) (.step 4 idleEnv) = some s' ∧
      ∀ pair ∈ SerializedArguments.empty.ccArgPairs,
        ⟨"a"⟩ ∈ s'.shared.orchestrator.indexed (serialTask, pair.1, pair.2) := by
  obtain ⟨s, hreach, hrunning, hindexed, howned, ⟨t, ht, hother⟩, s', hs', hallowed, howned'⟩ :=
    Reachable.exists_of_run (memMachine serialDeployment) (slotsKept serialDeployment) memStart
      (waitedForRuns ++ [.start (.work .rust ⟨"w2"⟩)])
      (fun s => s.shared.orchestrator.statusOf ⟨"a"⟩ = some .running ∧
        (∀ pair ∈ SerializedArguments.empty.ccArgPairs,
          ⟨"a"⟩ ∈ s.shared.orchestrator.indexed (serialTask, pair.1, pair.2)) ∧
        OwnedBy s.shared ⟨"a"⟩ ⟨"w1"⟩ ∧
        (∃ t ∈ s.threads[4]?, t.task.worker? ≠ some ⟨"w1"⟩) ∧
        ∃ s' ∈ s.apply (memMachine serialDeployment) (.step 4 idleEnv),
          (slotsKept serialDeployment).Allows s (.step 4 idleEnv) ∧ OwnedBy s'.shared ⟨"a"⟩ ⟨"w1"⟩)
      (by decide +kernel) (by decide +kernel)
  obtain ⟨hlimit, hslot⟩ := running_le_limit rfl hreach
  refine ⟨s, s', hreach, hrunning, hlimit _ _ rfl (by decide) _, hs', fun pair hpair => ?_⟩
  exact hslot 4 idleEnv s' hallowed hs' t ht ⟨"a"⟩ ⟨"w1"⟩ hother howned howned' _
    (hindexed pair hpair)

/-- **A lost claim takes the owner's slot away.**  Slots are kept by invocation, not by
owner: the second delivery of `a` frees the slot that the first worker runs under, and
`b` runs beside `a` although the limit is one. -/
theorem duplicate_exceeds_limit :
    ∃ s, Reachable (memMachine serialDeployment) orderly memStart s ∧
      serialDeployment.catalog.registry serialTask = some serialConfig ∧
      serialConfig.limit < (running serialDeployment s.shared (serialTask, some .empty)).card := by
  obtain ⟨s, hreach, hcard⟩ := Reachable.exists_of_run (memMachine serialDeployment) orderly
    memStart (waitedForRuns ++ duplicateDelivery)
    (fun s => serialConfig.limit <
      (running serialDeployment s.shared (serialTask, some .empty)).card)
    (by decide +kernel) (by decide +kernel)
  exact ⟨s, hreach, rfl, hcard⟩

end Rustvello.Mem
