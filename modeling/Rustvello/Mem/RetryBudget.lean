import Rustvello.Concurrency.History
import Rustvello.Orchestration.Calls

/-!
# The retry budget

An attempt counts the `retry` entries in the history of its invocation when it starts, and a
failed attempt is retried if it counted fewer than `max_retries`.  The entry of a retry is
written after the status, and the status alone makes the invocation available again: another
attempt may count before the entry is there.

* `entries` — how often the status of an invocation has entered `retry` in a run;
* `Attempt`, `budgeting` — what an attempt has read, and the discipline: it asks for `retry`
  only within its count, and writes the entry right after the status;
* `Budgeted` — the invariant: every entry into `retry` is in the history or about to be;
* `countsCurrent` — when an attempt enters `retry`, every earlier entry is in the history and
  was there when the attempt counted;
* `retries_within_budget` — then an invocation enters `retry` at most `max_retries` times.
-/

namespace Rustvello.Mem

open Concurrency Proto Rustvello.Core Orchestration

/-- The event is an accepted write of `retry`. -/
def entersRetry (id : InvocationId) : Event ports → Bool
  | ⟨.setInvocationStatus x .retry _, .ok _⟩ => decide (x = id)
  | _ => false

/-- How often the status of an invocation has entered `retry`. -/
def entries (events : List (Event ports)) (id : InvocationId) : Nat :=
  events.countP (entersRetry id)

/-- The `retry` entries of a history. -/
def retryEntries (history : List InvocationHistory) : Nat :=
  (history.filter fun h => h.statusRecord.status = .retry).length

/-! ## The discipline -/

/-- What an operation has read last, and the invocation whose `retry` it has written and not
recorded yet. -/
structure Attempt where
  submission : Option Submission
  read : Option (InvocationId × InvocationDTO) := none
  history : Option (InvocationId × List InvocationHistory) := none
  owed : Option InvocationId := none

def Attempt.next : (c : PortCall) → RustvelloResult c.Ans → Attempt → Attempt
  | .getInvocation id, .ok invocation, g => { g with read := some (id, invocation) }
  | .getHistory id, .ok history, g => { g with history := some (id, history) }
  | .setInvocationStatus id .retry _, .ok _, g => { g with owed := some id }
  | .addHistory history, _, g =>
      if history.statusRecord.status = .retry then { g with owed := none } else g
  | _, _, g => g

/-- The attempt has counted fewer retries than its task allows. -/
def Attempt.MayRetry (d : Deployment) (g : Attempt) (id : InvocationId) : Prop :=
  ∃ invocation base history, g.read = some (id, invocation) ∧
    d.catalog.registry invocation.taskId = some base ∧ g.history = some (id, history) ∧
    u32 (retryEntries history) < base.maxRetries

def budgeting (d : Deployment) : Discipline ports Operation Attempt where
  start op := { submission := op.submission? }
  next := Attempt.next
  pre
    | .setInvocationStatus id .retry _, g => g.owed = none ∧ g.MayRetry d id
    | .addHistory history, g =>
        if history.statusRecord.status = .retry then g.owed = some history.invocationId
        else g.owed = none
    | .upsertInvocation invocation _, g => g.owed = none ∧ ∃ submission,
        g.submission = some submission ∧ invocation.invocationId = submission.invocationId ∧
        invocation.taskId = submission.call.taskId
    | _, g => g.owed = none
  resp c _ r := Truthful c r

section Programs

variable {d : Deployment} {α β : Type} {g : Attempt} {id : InvocationId} {p : Orch α}

/-- Calls that neither retry nor store. -/
def Plain : PortCall → Prop
  | .setInvocationStatus _ status _ => status ≠ .retry
  | .addHistory history => history.statusRecord.status ≠ .retry
  | .upsertInvocation _ _ => False
  | _ => True

/-- Calls that an attempt makes between its reads and its outcome. -/
def Neutral : PortCall → Prop
  | .setInvocationStatus _ _ _ | .addHistory _ | .upsertInvocation _ _ | .getInvocation _
  | .getHistory _ => False
  | _ => True

theorem keeps_paid_of_plain {c : PortCall} (h : Plain c) :
    (budgeting d).Keeps (fun g => g.owed = none) c := by
  intro g hg
  cases c <;> first
    | exact ⟨hg, fun _ _ => hg⟩
    | exact h.elim
    | skip
  case setInvocationStatus id status runnerId =>
    cases status <;> first
      | exact ⟨hg, fun _ _ => hg⟩
      | exact absurd rfl h
  case getInvocation id =>
    refine ⟨hg, fun r _ => ?_⟩
    cases r <;> exact hg
  case getHistory id =>
    refine ⟨hg, fun r _ => ?_⟩
    cases r <;> exact hg
  case addHistory history =>
    have hplain : history.statusRecord.status ≠ .retry := h
    refine ⟨?_, fun r _ => ?_⟩
    · show if history.statusRecord.status = .retry then _ else g.owed = none
      rw [if_neg hplain]
      exact hg
    · show Attempt.owed (if history.statusRecord.status = .retry then _ else g) = none
      rw [if_neg hplain]
      exact hg

theorem keeps_same_of_neutral {c : PortCall} (h : Neutral c) (hg : g.owed = none) :
    (budgeting d).Keeps (fun g' => g' = g) c := by
  rintro _ rfl
  cases c <;> first
    | exact ⟨hg, fun _ _ => rfl⟩
    | exact h.elim

/-- The part ends with every `retry` recorded. -/
abbrev Pays (d : Deployment) (p : Orch α) (g : Attempt) : Prop :=
  (budgeting d).ObeysE p (fun _ g' => g'.owed = none) (fun _ g' => g'.owed = none) g

/-- A part that neither retries nor stores. -/
theorem plain_paid (hp : Prog.UsesE Truthful Plain p) (hg : g.owed = none) :
    Pays d p g := by
  refine Discipline.ObeysE.of_keeps (Prog.Uses.mono hp ?_ fun c hc => keeps_paid_of_plain hc) hg
  rintro c r ⟨_, hr⟩
  exact hr

/-- Such a part, then the rest. -/
theorem plain_bind {f : α → Orch β} (hp : Prog.UsesE Truthful Plain p) (hg : g.owed = none)
    (hf : ∀ a g', g'.owed = none → Pays d (f a) g') : Pays d (p >>= f) g :=
  Discipline.ObeysE.bind (plain_paid hp hg) hf

/-- A part that leaves the book, then the rest. -/
theorem neutral_bind {f : α → Orch β} (hp : Prog.UsesE (fun _ _ => True) Neutral p)
    (hg : g.owed = none) (hf : ∀ a, Pays d (f a) g) : Pays d (p >>= f) g := by
  refine Discipline.ObeysE.bind_of_keeps (K := fun g' => g' = g)
    (Prog.Uses.mono hp (fun _ _ _ => trivial) fun c hc => keeps_same_of_neutral hc hg) rfl ?_ ?_
  · rintro _ _ rfl
    exact hg
  · rintro a _ rfl
    exact hf a

theorem plain_of_updates {runner : RunnerId}
    (h : Prog.UsesE Truthful (Updates (· ≠ .retry) id runner) p) :
    Prog.UsesE Truthful Plain p := by
  refine Prog.Uses.mono h (fun _ _ h => h) fun c hc => ?_
  cases c <;> first
    | trivial
    | exact hc.2.1
    | exact hc.2

theorem plain_of_actsOn {runner : RunnerId}
    (h : Prog.UsesE Truthful (ActsOn (· ≠ .retry) id runner) p) :
    Prog.UsesE Truthful Plain p := by
  refine Prog.Uses.mono h (fun _ _ h => h) fun c hc => ?_
  rcases hc with hc | hc
  · cases c <;> first
      | trivial
      | exact hc.2.1
      | exact hc.2
  · cases c <;> trivial

theorem plain_of_dispatches (h : Prog.UsesE Truthful Dispatches p) :
    Prog.UsesE Truthful Plain p := by
  refine Prog.Uses.mono h (fun _ _ h => h) fun c hc => ?_
  cases c <;> first | trivial | skip
  case setInvocationStatus id status runnerId =>
    obtain ⟨-, rfl | rfl | rfl⟩ := hc <;> exact fun h => by cases h

/-- Status and entry of a retry, then the rest. -/
theorem retry_pays (hd : d.publication = false) {runnerId : RunnerId} {taskId : TaskId}
    {arguments : SerializedArguments} {f : InvocationStatusRecord → Orch β} (hg : g.owed = none)
    (hmay : g.MayRetry d id) (hf : ∀ record g', g'.owed = none → Pays d (f record) g') :
    Pays d (setInvocationStatusWithContext d id .retry runnerId taskId arguments >>= f) g := by
  rw [Pays, Discipline.obeysE_bind]
  unfold setInvocationStatusWithContext
  rw [if_neg (by simp [hd])]
  refine obeysE_port_bind.mpr ⟨⟨hg, hmay⟩, ?_, fun _ _ => hg⟩
  intro record hrecord
  have hstatus : record.status = .retry := hrecord
  have heffects : terminalEffects d id .retry = pure () := by
    unfold terminalEffects
    rw [if_neg (by decide)]
  rw [heffects, Discipline.obeysE_bind, Discipline.obeysE_pure]
  have hentry : ((InvocationHistory.new id record none).withRunner runnerId).statusRecord.status =
      .retry := hstatus
  refine obeysE_port_bind.mpr ⟨?_, ?_, ?_⟩
  · show if _ = InvocationStatus.retry then _ else _
    rw [if_pos hentry]
    rfl
  · intro _ _
    show (budgeting d).ObeysE _ _ _ (if _ = InvocationStatus.retry then _ else _)
    rw [if_pos hentry]
    have hreport : Prog.UsesE Truthful Plain (reportPublishedStatus d id .retry taskId arguments) :=
      Reports.reportPublishedStatus ⟨fun _ _ _ _ => trivial, fun _ _ _ _ => trivial,
        fun _ _ _ _ _ => trivial⟩ d id .retry taskId arguments
    refine Discipline.ObeysE.bind (plain_paid hreport rfl) ?_
    intro _ g' hg'
    exact hf record g' hg'
  · intro e _
    show Attempt.owed (if _ = InvocationStatus.retry then _ else _) = none
    rw [if_pos hentry]

theorem setInvocationRetryAfter_pays (hd : d.publication = false) {runnerId : RunnerId}
    (taskId : TaskId) (arguments : SerializedArguments) (queueName : String) (priority : F64)
    (delayMs : Nat) (hg : g.owed = none) (hmay : g.MayRetry d id) :
    Pays d (setInvocationRetryAfterWithContext d id runnerId taskId arguments queueName priority
      delayMs) g := by
  have hrest : ∀ c : PortCall, Plain c → ∀ g' : Attempt, g'.owed = none →
      Pays d (do let _ ← port (.incrementInvocationRetries id); port c) g' := by
    intro c hc g' hg'
    refine plain_bind (usesE_port trivial) hg' ?_
    intro _ g'' hg''
    exact plain_paid (usesE_port hc) hg''
  unfold setInvocationRetryAfterWithContext setInvocationRetryWithContext
  rw [if_neg (c := d.publication = true) (by simp [hd]),
    if_neg (c := d.publication = true) (by simp [hd])]
  split
  · exact retry_pays hd hg hmay fun _ g' hg' =>
      hrest (.routeInvocationWithOptions id (some taskId) queueName priority) trivial g' hg'
  · exact retry_pays hd hg hmay fun _ g' hg' =>
      hrest (.routeInvocationAfter id (some taskId) queueName priority delayMs) trivial g' hg'

theorem finishRetry_pays (hd : d.publication = false) {worker : RunnerId} (taskId : TaskId)
    (arguments : SerializedArguments) (resolved : TaskConfig) (retryCount attemptNumber : Nat)
    (hg : g.owed = none) (hmay : g.MayRetry d id) :
    Pays d (finishRetry d id worker taskId arguments resolved retryCount attemptNumber) g := by
  unfold finishRetry
  split
  · exact hg
  · have hrelease : Prog.UsesE (fun _ _ => True) Neutral
        (releaseNontransactionalConcurrencySlot d id) := by
      unfold releaseNontransactionalConcurrencySlot
      rw [if_neg (by simp [hd])]
      exact usesE_port trivial
    refine neutral_bind hrelease hg fun _ => ?_
    refine neutral_bind (usesE_port trivial) hg fun unit => ?_
    refine obeysE_attempt_bind.mpr ?_
    have hsettle : ∀ written (g' : Attempt), g'.owed = none →
        Pays d (settleOutcome d id worker written (pure ())) g' := by
      intro written g' hg'
      exact plain_paid (plain_of_updates
        (usesE_forget (settleOutcome_nameless hd id worker written (usesE_pure _)))) hg'
    refine (setInvocationRetryAfter_pays hd _ _ _ _ _ hg hmay).mono ?_ ?_
    · exact fun _ g' hg' => hsettle _ g' hg'
    · exact fun _ g' hg' => hsettle _ g' hg'

/-- A failed attempt is retried only within the count it took. -/
theorem finishAttempt_pays (hd : d.publication = false) {worker : RunnerId} (taskId : TaskId)
    (arguments : SerializedArguments) {base : TaskConfig} (resolved : TaskConfig) {retryCount : Nat}
    (attemptNumber : Nat) (outcome : AttemptOutcome) (hg : g.owed = none)
    (hmay : retryCount < base.maxRetries → g.MayRetry d id) :
    Pays d (finishAttempt d id worker taskId arguments base resolved retryCount attemptNumber
      outcome) g := by
  unfold finishAttempt
  split
  · exact plain_paid (plain_of_updates (releaseFinished_updates hd id worker)) hg
  · split
    · exact plain_paid (plain_of_updates
        (usesE_forget (finishSuccess_nameless hd id worker _ _ _ (by decide)))) hg
    · dsimp only
      split
      · rename_i hretry
        have hcount : retryCount < base.maxRetries := by
          unfold shouldRetry at hretry
          simp only [Bool.and_eq_true, decide_eq_true_eq] at hretry
          exact hretry.1.1
        exact finishRetry_pays hd _ _ _ _ _ hg (hmay hcount)
      · exact plain_paid (plain_of_updates (fail_updates hd id worker _ _ _ _ (by decide))) hg

theorem executeClaimed_pays (hd : d.publication = false) (id : InvocationId) (worker : RunnerId)
    (hg : g.owed = none) : Pays d (executeClaimed d id worker) g := by
  unfold executeClaimed
  refine plain_bind (plain_of_updates (setInvocationStatus_updates hd id worker (by decide))) hg ?_
  intro _ g₁ hg₁
  refine obeysE_port_bind.mpr ⟨hg₁, ?_, fun _ _ => hg₁⟩
  intro invocation _
  refine neutral_bind (usesE_port trivial) hg₁ fun call => ?_
  cases hbase : d.catalog.registry invocation.taskId with
  | none =>
      exact plain_paid (plain_of_updates (fail_updates hd id worker _ _ _ _ (by decide))) hg₁
  | some base =>
      unfold runAttempt
      refine obeysE_port_bind.mpr ⟨hg₁, ?_, fun _ _ => hg₁⟩
      intro history _
      have hidentities : Identities Neutral :=
        ⟨fun _ => trivial, fun _ _ => trivial, fun _ => trivial⟩
      refine neutral_bind (hidentities.beginExecution hd id worker _ _) hg₁ fun identity => ?_
      refine neutral_bind (usesE_port trivial) hg₁ fun _ => ?_
      refine neutral_bind (usesE_port trivial) hg₁ fun outcome => ?_
      refine finishAttempt_pays hd _ _ _ _ _ hg₁ fun hcount => ?_
      exact ⟨invocation, base, history, rfl, hbase, rfl, hcount⟩

theorem submitWithId_pays (hd : d.publication = false) (submission : Submission)
    (hsubmission : g.submission = some submission) (hg : g.owed = none) :
    Pays d (submitWithId d submission) g := by
  unfold submitWithId
  split
  · exact hg
  · refine neutral_bind (usesE_port trivial) hg fun now => ?_
    rw [if_neg (by simp [hd])]
    unfold submitOrdered
    rw [Pays, Discipline.obeysE_bind]
    refine obeysE_port_bind.mpr ⟨hg, fun _ _ => ?_, fun _ _ => hg⟩
    refine obeysE_port_bind.mpr ⟨⟨hg, submission, hsubmission, rfl, rfl⟩, fun _ _ => ?_,
      fun _ _ => hg⟩
    refine plain_paid (Prog.usesE_bind (usesE_port trivial) fun now => ?_) hg
    refine Prog.usesE_bind (usesE_port ?_) fun _ => usesE_port trivial
    exact fun h => by cases h

/-- Every considered operation keeps to the discipline. -/
theorem program_pays (hd : d.publication = false) {op : Operation} (hop : Considered op) :
    (budgeting d).Obeys (op.program d) (fun _ g => g.owed = none) ((budgeting d).start op) := by
  have hunit : ∀ {α : Type} {p : Orch α} {g : Attempt}, Pays d p g →
      (budgeting d).Obeys p.run.toUnit (fun _ g => g.owed = none) g := by
    intro α p g hp
    apply Discipline.Obeys.toUnit
    refine Discipline.Obeys.mono hp ?_
    rintro (e | a) g' hg'
    · exact hg'
    · exact hg'
  cases op with
  | evaluateTriggers runnerId => exact hop.elim
  | waitFor waiter waitedOn => exact hunit (plain_paid (usesE_port trivial) rfl)
  | cancel id runnerId =>
      exact hunit (plain_paid (plain_of_updates
        (cancelInvocation_updates hd id runnerId (by decide))) rfl)
  | recover runnerId id recoveryStatus =>
      have hrecovery : recoveryStatus ≠ .retry := by
        rintro rfl
        cases hop
      exact hunit (plain_paid (plain_of_actsOn
        (recoverOne_actsOn hd id runnerId hrecovery (by decide) (by decide))) rfl)
  | submit submission =>
      exact hunit (submitWithId_pays hd submission rfl rfl)
  | work language worker =>
      refine hunit (plain_bind (plain_of_dispatches (claimNext_dispatches hd language worker)) rfl ?_)
      rintro (_ | id) g hg
      · exact hg
      · have hrelease : Prog.UsesE Truthful Plain (releaseNontransactionalConcurrencySlot d id) :=
          plain_of_updates (releaseSlot_updates hd id worker)
        refine obeysE_attempt_bind.mpr ?_
        refine (plain_paid (plain_of_updates
          (setInvocationStatus_updates hd id worker (by decide))) hg).mono ?_ ?_
        · exact fun _ g' hg' => executeClaimed_pays hd id worker hg'
        · intro e g' hg'
          dsimp only
          split
          · exact plain_paid hrelease hg'
          · exact plain_bind (usesE_attempt hrelease) hg' fun _ g'' hg'' => hg''

end Programs

/-! ## The invariant -/

/-- How many operations have still to record a `retry` of the invocation. -/
def owing (books : List Attempt) (id : InvocationId) : Nat :=
  books.countP fun g => decide (g.owed = some id)

/-- Every entry into `retry` is in the history, or about to be written there; and there are no
more of them than the task of the invocation allows. -/
structure Budgeted (d : Deployment) (s : MemRuntime × List (Event ports)) (books : List Attempt) :
    Prop where
  submitted : ∀ g ∈ books, ∀ g' ∈ books, ∀ submission submission',
    g.submission = some submission → g'.submission = some submission' →
    submission.invocationId = submission'.invocationId →
    submission.call.taskId = submission'.call.taskId
  stored : ∀ id invocation, s.1.backend.invocations.lookup id = some invocation →
    ∃ g ∈ books, ∃ submission, g.submission = some submission ∧ submission.invocationId = id ∧
      invocation.taskId = submission.call.taskId
  read : ∀ g ∈ books, ∀ id invocation, g.read = some (id, invocation) →
    ∃ stored, s.1.backend.invocations.lookup id = some stored ∧ stored.taskId = invocation.taskId
  counted : ∀ id, entries s.2 id = retryEntries (s.1.backend.historyOf id) + owing books id
  known : ∀ id, 0 < entries s.2 id → (s.1.backend.invocations.lookup id).isSome = true
  bounded : ∀ id invocation base, s.1.backend.invocations.lookup id = some invocation →
    d.catalog.registry invocation.taskId = some base → base.maxRetries ≤ u32Max →
    entries s.2 id ≤ base.maxRetries

section Invariant

variable {d : Deployment} {s s' : MemRuntime} {events : List (Event ports)}
  {before after : List Attempt} {g g' : Attempt}

theorem entries_cons (e : Event ports) (events : List (Event ports)) (id : InvocationId) :
    entries (e :: events) id = entries events id + if entersRetry id e then 1 else 0 := by
  unfold entries
  rw [List.countP_cons]

theorem owing_replace (id : InvocationId) :
    owing (before ++ g' :: after) id + (if g.owed = some id then 1 else 0) =
      owing (before ++ g :: after) id + if g'.owed = some id then 1 else 0 := by
  unfold owing
  simp only [List.countP_append, List.countP_cons, decide_eq_true_eq]
  omega

theorem retryEntries_addHistory (b : BackendState) (history : InvocationHistory)
    (id : InvocationId) :
    retryEntries ((b.addHistory history).historyOf id) = retryEntries (b.historyOf id) +
      if history.invocationId = id ∧ history.statusRecord.status = .retry then 1 else 0 := by
  unfold BackendState.addHistory BackendState.historyOf
  by_cases hid : history.invocationId = id
  · subst hid
    rw [AList.lookup_insert]
    by_cases hstatus : history.statusRecord.status = .retry <;>
      simp [retryEntries, hstatus]
  · rw [AList.lookup_insert_ne (Ne.symm hid)]
    simp [hid]

/-- A call that stores no invocation. -/
theorem Budgeted.step (h : Budgeted d (s, events) (before ++ g :: after))
    {events' : List (Event ports)}
    (hinvocations : s'.backend.invocations = s.backend.invocations)
    (hsubmission : g'.submission = g.submission)
    (hread : ∀ id invocation, g'.read = some (id, invocation) →
      ∃ stored, s.backend.invocations.lookup id = some stored ∧ stored.taskId = invocation.taskId)
    (hcounted : ∀ id, entries events' id =
      retryEntries (s'.backend.historyOf id) + owing (before ++ g' :: after) id)
    (hentries : ∀ id, entries events' id = entries events id ∨
      ∃ invocation, s.backend.invocations.lookup id = some invocation ∧
        ∀ base, d.catalog.registry invocation.taskId = some base → base.maxRetries ≤ u32Max →
          entries events' id ≤ base.maxRetries) :
    Budgeted d (s', events') (before ++ g' :: after) := by
  have hsubmissions : ∀ x ∈ before ++ g' :: after, ∃ y ∈ before ++ g :: after,
      y.submission = x.submission :=
    forall_replace (fun b hb => ⟨b, hb, rfl⟩) (fun _ hx => hx) ⟨g, by simp, hsubmission.symm⟩
  have hback : ∀ x ∈ before ++ g :: after, ∃ y ∈ before ++ g' :: after,
      y.submission = x.submission :=
    forall_replace (fun b hb => ⟨b, hb, rfl⟩) (fun _ hx => hx) ⟨g', by simp, hsubmission⟩
  constructor
  case submitted =>
    intro x hx x' hx' submission submission' hsub hsub' hid
    obtain ⟨y, hy, hxy⟩ := hsubmissions x hx
    obtain ⟨y', hy', hxy'⟩ := hsubmissions x' hx'
    exact h.submitted y hy y' hy' submission submission' (hxy.trans hsub) (hxy'.trans hsub') hid
  case stored =>
    intro id invocation hlookup
    rw [hinvocations] at hlookup
    obtain ⟨x, hx, submission, hsub, hid, htask⟩ := h.stored id invocation hlookup
    obtain ⟨y, hy, hxy⟩ := hback x hx
    exact ⟨y, hy, submission, hxy.trans hsub, hid, htask⟩
  case read =>
    rw [hinvocations]
    exact forall_replace h.read (fun _ hx => hx) hread
  case counted => exact hcounted
  case known =>
    intro id hid
    rw [hinvocations]
    rcases hentries id with hsame | ⟨invocation, hlookup, -⟩
    · exact h.known id (by rw [← hsame]; exact hid)
    · simp [hlookup]
  case bounded =>
    intro id invocation base hlookup hbase hmax
    rw [hinvocations] at hlookup
    rcases hentries id with hsame | ⟨invocation', hlookup', hbound⟩
    · rw [hsame]
      exact h.bounded id invocation base hlookup hbase hmax
    · obtain rfl := Option.some.inj (hlookup.symm.trans hlookup')
      exact hbound base hbase hmax

/-- A call that neither enters `retry` nor records it, and stores nothing. -/
theorem Budgeted.frame (h : Budgeted d (s, events) (before ++ g :: after)) {e : Event ports}
    (he : ∀ id, entersRetry id e = false)
    (hinvocations : s'.backend.invocations = s.backend.invocations)
    (hhistory : ∀ id, retryEntries (s'.backend.historyOf id) =
      retryEntries (s.backend.historyOf id))
    (hsubmission : g'.submission = g.submission) (howed : g'.owed = g.owed)
    (hread : ∀ id invocation, g'.read = some (id, invocation) →
      ∃ stored, s.backend.invocations.lookup id = some stored ∧
        stored.taskId = invocation.taskId) :
    Budgeted d (s', e :: events) (before ++ g' :: after) := by
  have hentries : ∀ id, entries (e :: events) id = entries events id := by
    intro id
    rw [entries_cons, he id]
    simp
  refine h.step hinvocations hsubmission hread ?_ fun id => .inl (hentries id)
  intro id
  have hcounted := h.counted id
  have hreplace : owing (before ++ g' :: after) id + (if g.owed = some id then 1 else 0) =
      owing (before ++ g :: after) id + if g'.owed = some id then 1 else 0 := owing_replace id
  rw [howed] at hreplace
  rw [hentries, hhistory]
  dsimp only at hcounted
  omega

/-- **Entering `retry`.**  The attempt counted every earlier entry, and fewer than allowed. -/
theorem Budgeted.retry (h : Budgeted d (s, events) (before ++ g :: after)) {id : InvocationId}
    {runnerId : Option RunnerId} {record : InvocationStatusRecord}
    (hbackend : s'.backend = s.backend) (howed : g.owed = none) (hmay : g.MayRetry d id)
    (hnobody : owing (before ++ g :: after) id = 0)
    (hcurrent : ∀ history, g.history = some (id, history) →
      retryEntries (s.backend.historyOf id) = retryEntries history) :
    Budgeted d (s', ⟨.setInvocationStatus id .retry runnerId, .ok record⟩ :: events)
      (before ++ { g with owed := some id } :: after) := by
  have hentries : ∀ x, entries
      ((⟨.setInvocationStatus id .retry runnerId, .ok record⟩ : Event ports) :: events) x =
        entries events x + if id = x then 1 else 0 := by
    intro x
    rw [entries_cons]
    simp [entersRetry]
  obtain ⟨invocation, base, history, hread, hbase, hhistory, hcount⟩ := hmay
  obtain ⟨stored, hlookup, htask⟩ := h.read g (by simp) id invocation hread
  have hcounted : ∀ x, entries events x =
      retryEntries (s.backend.historyOf x) + owing (before ++ g :: after) x := h.counted
  refine h.step (congrArg BackendState.invocations hbackend) rfl (h.read g (by simp)) ?_ ?_
  · intro x
    have hreplace : owing (before ++ { g with owed := some id } :: after) x +
        (if g.owed = some x then 1 else 0) =
        owing (before ++ g :: after) x + if some id = some x then 1 else 0 := owing_replace x
    rw [howed] at hreplace
    rw [hentries, hbackend, hcounted]
    simp only [reduceCtorEq, if_false, Option.some.injEq] at hreplace
    omega
  · intro x
    by_cases hx : id = x
    · subst hx
      right
      refine ⟨stored, hlookup, ?_⟩
      intro base' hbase' hmax
      rw [htask, hbase] at hbase'
      obtain rfl := Option.some.inj hbase'
      -- the count is far from wrapping around
      have hbound : entries events id ≤ base.maxRetries :=
        h.bounded id stored base hlookup (by rw [htask]; exact hbase) hmax
      have hseen : entries events id = retryEntries history := by
        rw [hcounted, hnobody, hcurrent history hhistory]
        omega
      rw [← hseen] at hcount
      unfold u32Max at hmax
      have hsmall : u32 (entries events id) = entries events id := by
        unfold u32
        exact Nat.mod_eq_of_lt (by omega)
      rw [hsmall] at hcount
      rw [hentries]
      simp only [if_true]
      omega
    · left
      rw [hentries]
      simp [hx]

/-- Recording a `retry`. -/
theorem Budgeted.record (h : Budgeted d (s, events) (before ++ g :: after))
    {history : InvocationHistory} (hstatus : history.statusRecord.status = .retry)
    (howed : g.owed = some history.invocationId) {r : RustvelloResult Unit} :
    Budgeted d ({ s with backend := s.backend.addHistory history },
        ⟨.addHistory history, r⟩ :: events) (before ++ { g with owed := none } :: after) := by
  have hentries : ∀ x, entries ((⟨.addHistory history, r⟩ : Event ports) :: events) x =
      entries events x := by
    intro x
    rw [entries_cons]
    simp [entersRetry]
  refine h.step rfl rfl (h.read g (by simp)) ?_ fun x => .inl (hentries x)
  intro x
  have hcounted : entries events x =
      retryEntries (s.backend.historyOf x) + owing (before ++ g :: after) x := h.counted x
  have hreplace : owing (before ++ { g with owed := none } :: after) x +
      (if g.owed = some x then 1 else 0) =
      owing (before ++ g :: after) x + if none = some x then 1 else 0 := owing_replace x
  rw [howed] at hreplace
  simp only [reduceCtorEq, if_false, Option.some.injEq] at hreplace
  rw [hentries, hcounted]
  dsimp only
  rw [retryEntries_addHistory]
  simp only [hstatus, and_true]
  omega

/-- Storing what was submitted. -/
theorem Budgeted.upsert (h : Budgeted d (s, events) (before ++ g :: after))
    {submission : Submission} (hsubmission : g.submission = some submission)
    {invocation : InvocationDTO} (hid : invocation.invocationId = submission.invocationId)
    (htask : invocation.taskId = submission.call.taskId) {call : CallDTO}
    {r : RustvelloResult Unit} :
    Budgeted d ({ s with backend := s.backend.upsertInvocation invocation call },
        ⟨.upsertInvocation invocation call, r⟩ :: events) (before ++ g :: after) := by
  have hg : g ∈ before ++ g :: after := by simp
  have hentries : ∀ x, entries ((⟨.upsertInvocation invocation call, r⟩ : Event ports) :: events) x =
      entries events x := by
    intro x
    rw [entries_cons]
    simp [entersRetry]
  -- what was stored under the id before is of the same task
  have hkept : ∀ x stored, s.backend.invocations.lookup x = some stored → ∃ new,
      (s.backend.upsertInvocation invocation call).invocations.lookup x = some new ∧
        new.taskId = stored.taskId := by
    intro x stored hlookup
    by_cases hx : x = invocation.invocationId
    · subst hx
      refine ⟨invocation, AList.lookup_insert _, ?_⟩
      obtain ⟨y, hy, earlier, hearlier, hsame, hstored⟩ := h.stored _ stored hlookup
      rw [htask, hstored]
      exact h.submitted g hg y hy submission earlier hsubmission hearlier (hid.symm.trans hsame.symm)
    · exact ⟨stored, by rw [BackendState.upsertInvocation, AList.lookup_insert_ne hx, hlookup], rfl⟩
  constructor
  case submitted => exact h.submitted
  case stored =>
    intro x stored hlookup
    by_cases hx : x = invocation.invocationId
    · subst hx
      rw [BackendState.upsertInvocation, AList.lookup_insert] at hlookup
      obtain rfl := Option.some.inj hlookup
      exact ⟨g, hg, submission, hsubmission, hid.symm, htask⟩
    · rw [BackendState.upsertInvocation, AList.lookup_insert_ne hx] at hlookup
      exact h.stored x stored hlookup
  case read =>
    intro y hy x read hread
    obtain ⟨stored, hlookup, hsame⟩ := h.read y hy x read hread
    obtain ⟨new, hnew, hnewtask⟩ := hkept x stored hlookup
    exact ⟨new, hnew, hnewtask.trans hsame⟩
  case counted =>
    intro x
    rw [hentries]
    exact h.counted x
  case known =>
    intro x hx
    rw [hentries] at hx
    obtain ⟨stored, hlookup⟩ := Option.isSome_iff_exists.mp (h.known x hx)
    obtain ⟨new, hnew, -⟩ := hkept x stored hlookup
    rw [hnew]
    rfl
  case bounded =>
    intro x new base hnew hbase hmax
    rw [hentries]
    rcases Nat.eq_zero_or_pos (entries events x) with hzero | hpos
    · omega
    · obtain ⟨stored, hlookup⟩ := Option.isSome_iff_exists.mp (h.known x hpos)
      obtain ⟨new', hnew', hsame⟩ := hkept x stored hlookup
      obtain rfl := Option.some.inj (hnew.symm.trans hnew')
      exact h.bounded x stored base hlookup (by rw [← hsame]; exact hbase) hmax

end Invariant

/-! ## Runs -/

/-- Everything but trigger evaluation is started, and no id is submitted twice. -/
def freshSubmissions {σ : Type} : Guard ports σ Operation where
  start s op := Considered op ∧ ∀ submission ∈ op.submission?, ∀ t ∈ s.threads,
    ∀ earlier ∈ t.task.submission?, earlier.invocationId ≠ submission.invocationId
  call _ _ _ := True

/-- The invocation and the runner of a call that asks for `retry`. -/
def retryWrite? : PortCall → Option (InvocationId × Option RunnerId)
  | .setInvocationStatus id .retry runnerId => some (id, runnerId)
  | _ => none

/-- The invocation whose `retry` a call records. -/
def owes? : PortCall → Option InvocationId
  | .addHistory history =>
      if history.statusRecord.status = .retry then some history.invocationId else none
  | _ => none

/-- The history of an invocation as an operation has read it last. -/
def lastHistory (id : InvocationId) : List (Event ports) → Option (List InvocationHistory)
  | [] => none
  | ⟨.getHistory x, .ok history⟩ :: log => if x = id then some history else lastHistory id log
  | _ :: log => lastHistory id log

/-- When the status machine lets an attempt enter `retry`, no earlier `retry` of the invocation
is still to be recorded, and none was recorded since the attempt read the history. -/
def countsCurrent : Guard ports (MemRuntime × List (Event ports)) Operation where
  start _ _ := True
  call s i c := ∀ write ∈ retryWrite? c,
    ∀ current ∈ s.shared.1.orchestrator.statusRecords.lookup write.1,
    current.status.canTransitionTo .retry = true → OwnershipOk current .retry write.2 →
    (∀ t ∈ s.threads, ∀ c' ∈ t.next?, owes? c' ≠ some write.1) ∧
    ∀ t ∈ s.threads[i]?, ∀ history ∈ lastHistory write.1 t.log,
      retryEntries (s.shared.1.backend.historyOf write.1) = retryEntries history

section Runs

variable {d : Deployment} {id : InvocationId}

/-- The machine that writes down every call. -/
abbrev recordedMachine (d : Deployment) :
    Machine ports (MemRuntime × List (Event ports)) Env Operation :=
  (memMachine d).recorded

theorem Attempt.next_submission (c : PortCall) (r : RustvelloResult c.Ans) (g : Attempt) :
    (Attempt.next c r g).submission = g.submission := by
  unfold Attempt.next
  split <;> try rfl
  split <;> rfl

theorem budgeting_book_submission (t : Thread ports Operation) :
    ((budgeting d).book t).submission = t.task.submission? :=
  (budgeting d).book_field Attempt.submission (fun _ _ _ => Attempt.next_submission _ _ _) t

/-- What the book has of the history is what the operation has read last. -/
theorem lastHistory_of_book (op : Operation) (log : List (Event ports))
    {history : List InvocationHistory}
    (h : ((budgeting d).read op log).history = some (id, history)) :
    lastHistory id log = some history := by
  induction log with
  | nil => cases h
  | cons e log ih =>
      obtain ⟨c, r⟩ := e
      rw [Monitor.read_cons] at h
      have hother : ((budgeting d).read op log).history = some (id, history) →
          lastHistory id (⟨c, r⟩ :: log) = lastHistory id log →
          lastHistory id (⟨c, r⟩ :: log) = some history := by
        intro hbook hskip
        rw [hskip]
        exact ih hbook
      cases c <;> first
        | exact hother h rfl
        | skip
      case setInvocationStatus x status runnerId =>
        refine hother ?_ rfl
        cases status <;> first | exact h | (cases r <;> exact h)
      case getInvocation x =>
        refine hother ?_ rfl
        cases r <;> exact h
      case addHistory entry =>
        refine hother ?_ rfl
        have hnext : (if entry.statusRecord.status = .retry then
            { (budgeting d).read op log with owed := none }
            else (budgeting d).read op log).history = some (id, history) := h
        split at hnext <;> exact hnext
      case getHistory x =>
        cases r with
        | error e => exact hother h rfl
        | ok found =>
            have hpair : (x, found) = (id, history) := Option.some.inj h
            obtain ⟨rfl, rfl⟩ := Prod.mk.inj hpair
            simp [lastHistory]

/-- An operation that owes an entry is about to write it. -/
theorem owes_of_owed {F : Attempt → Prop} {σ : Type} {s : System ports σ Operation}
    (hF : ∀ g, F g → g.owed = none) (hobey : (budgeting d).AllObey F s) {t : Thread ports Operation}
    (ht : t ∈ s.threads) (howed : ((budgeting d).book t).owed = some id) :
    ∃ c, t.next? = some c ∧ owes? c = some id := by
  have hob := hobey t ht
  have hbusy : ((budgeting d).book t).owed ≠ none := by simp [howed]
  cases hprog : t.prog with
  | done u =>
      rw [hprog] at hob
      exact absurd (hF _ hob) hbusy
  | call c k =>
      rw [hprog] at hob
      refine ⟨c, by simp [Thread.next?, hprog], ?_⟩
      have hpre := hob.1
      cases c <;> first
        | exact absurd hpre hbusy
        | exact absurd hpre.1 hbusy
        | skip
      case setInvocationStatus x status runnerId =>
        cases status <;> first
          | exact absurd hpre hbusy
          | exact absurd hpre.1 hbusy
      case addHistory entry =>
        have hentry : if entry.statusRecord.status = .retry then
            ((budgeting d).book t).owed = some entry.invocationId
            else ((budgeting d).book t).owed = none := hpre
        split at hentry
        · rename_i hstatus
          rw [howed] at hentry
          show (if entry.statusRecord.status = .retry then some entry.invocationId else none) = _
          rw [if_pos hstatus]
          exact hentry.symm
        · exact absurd hentry hbusy

/-- **One call keeps the count.** -/
theorem Budgeted.exec (env : Env) {s : MemRuntime} {events : List (Event ports)}
    {before after : List Attempt} {g : Attempt}
    (h : Budgeted d (s, events) (before ++ g :: after)) (c : PortCall)
    (hpre : (budgeting d).pre c g)
    (hretry : ∀ write ∈ retryWrite? c, ∀ current ∈ s.orchestrator.statusRecords.lookup write.1,
      current.status.canTransitionTo .retry = true → OwnershipOk current .retry write.2 →
      owing (before ++ g :: after) write.1 = 0 ∧
        ∀ history, g.history = some (write.1, history) →
          retryEntries (s.backend.historyOf write.1) = retryEntries history) :
    Budgeted d ((MemRuntime.exec env c s).2, ⟨c, (MemRuntime.exec env c s).1⟩ :: events)
      (before ++ Attempt.next c (MemRuntime.exec env c s).1 g :: after) := by
  have hread := h.read g (by simp)
  have hframe : ∀ {e : Event ports} {s' : MemRuntime}, (∀ id, entersRetry id e = false) →
      s'.backend.invocations = s.backend.invocations →
      s'.backend.histories = s.backend.histories →
      Budgeted d (s', e :: events) (before ++ g :: after) := by
    intro e s' he hinvocations hhistories
    refine h.frame he hinvocations (fun id => ?_) rfl rfl hread
    unfold BackendState.historyOf
    rw [hhistories]
  cases c <;> first
    | exact hframe (fun _ => rfl) rfl rfl
    | skip
  case upsertInvocation invocation call =>
    obtain ⟨-, submission, hsubmission, hid, htask⟩ := hpre
    exact h.upsert hsubmission hid htask
  case addHistory entry =>
    have hentry : if entry.statusRecord.status = .retry then g.owed = some entry.invocationId
        else g.owed = none := hpre
    show Budgeted d _ (before ++ (if entry.statusRecord.status = .retry then
      { g with owed := none } else g) :: after)
    split at hentry
    · rename_i hstatus
      rw [if_pos hstatus]
      exact h.record hstatus hentry
    · rename_i hstatus
      rw [if_neg hstatus]
      refine h.frame (fun _ => rfl) rfl (fun id => ?_) rfl rfl hread
      show retryEntries ((s.backend.addHistory entry).historyOf id) = _
      rw [retryEntries_addHistory]
      simp [hstatus]
  case getInvocation id =>
    simp only [MemRuntime.exec, BackendState.getInvocation]
    cases hlookup : s.backend.invocations.lookup id with
    | none => exact hframe (fun _ => rfl) rfl rfl
    | some invocation =>
        refine h.frame (fun _ => rfl) rfl (fun _ => rfl) rfl rfl ?_
        intro x read hx
        cases hx
        exact ⟨invocation, hlookup, rfl⟩
  case getHistory id => exact h.frame (fun _ => rfl) rfl (fun _ => rfl) rfl rfl hread
  case setInvocationStatus id status runnerId =>
    by_cases hstatus : status = .retry
    · subst hstatus
      obtain ⟨current, record, ccIndex, ccReverse, hcurrent, htrans, heq⟩ | ⟨_, _, -, -, heq⟩ |
        ⟨-, heq⟩ := s.orchestrator.setInvocationStatus_cases env.clock id .retry runnerId
      · simp only [MemRuntime.exec, heq]
        obtain ⟨hcan, howner, -⟩ := (statusRecordTransition_ok_iff _ _ _ _ _).mp htrans
        obtain ⟨hnobody, hcounted⟩ := hretry _ rfl current hcurrent hcan howner
        exact h.retry rfl hpre.1 hpre.2 hnobody hcounted
      · simp only [MemRuntime.exec, heq]
        exact hframe (fun _ => rfl) rfl rfl
      · simp only [MemRuntime.exec, heq]
        exact hframe (fun _ => rfl) rfl rfl
    · have hplain : ∀ (e : Event ports), e.op = .setInvocationStatus id status runnerId →
          ∀ x, entersRetry x e = false := by
        rintro ⟨c, r⟩ rfl x
        cases status <;> first | rfl | exact absurd rfl hstatus
      have hsame : Attempt.next (.setInvocationStatus id status runnerId)
          (MemRuntime.exec env (.setInvocationStatus id status runnerId) s).1 g = g := by
        cases status <;> first | rfl | exact absurd rfl hstatus
      rw [hsame]
      exact hframe (hplain _ rfl) rfl rfl

/-- Nobody else is about to record a `retry` of the invocation. -/
theorem owing_eq_zero {s : System ports (MemRuntime × List (Event ports)) Operation}
    (hobey : (budgeting d).AllObey (fun g => g.owed = none) s)
    (hnobody : ∀ t ∈ s.threads, ∀ c ∈ t.next?, owes? c ≠ some id) :
    owing (s.books (budgeting d).toMonitor) id = 0 := by
  unfold owing
  rw [List.countP_eq_zero]
  intro g hg howed
  obtain ⟨t, ht, rfl⟩ := List.mem_map.mp hg
  obtain ⟨c, hnext, howes⟩ := owes_of_owed (fun _ h => h) hobey ht (of_decide_eq_true howed)
  exact hnobody t ht c hnext howes

theorem budgeted_upheld (hd : d.publication = false) :
    (budgeting d).Upheld (fun g => g.owed = none) (Budgeted d) (recordedMachine d)
      (freshSubmissions.and countsCurrent) ⟨({}, []), []⟩ where
  program _ op hstart := program_pays hd hstart.1.1
  obey t ht := by cases ht
  logs t ht := by cases ht
  holds := by
    constructor <;> simp [System.books, entries, owing, retryEntries, BackendState.historyOf]
  start s op hstart h := by
    have hmem : ∀ g ∈ s.books (budgeting d).toMonitor ++ [(budgeting d).start op],
        g ∈ s.books (budgeting d).toMonitor ∨ g = (budgeting d).start op := by
      intro g hg
      simpa using hg
    -- a new submission has an id of its own
    have hfresh : ∀ g ∈ s.books (budgeting d).toMonitor, ∀ submission submission',
        op.submission? = some submission → g.submission = some submission' →
        submission'.invocationId ≠ submission.invocationId := by
      intro g hg submission submission' hsub hsub'
      obtain ⟨t, ht, rfl⟩ := List.mem_map.mp hg
      rw [budgeting_book_submission] at hsub'
      exact hstart.1.2 submission hsub t ht submission' hsub'
    have howing : ∀ id, owing (s.books (budgeting d).toMonitor ++ [(budgeting d).start op]) id =
        owing (s.books (budgeting d).toMonitor) id := by
      intro id
      simp [owing, budgeting]
    constructor
    case submitted =>
      intro g hg g' hg' submission submission' hsub hsub' hid
      rcases hmem g hg with hg | rfl
      · rcases hmem g' hg' with hg' | rfl
        · exact h.submitted g hg g' hg' submission submission' hsub hsub' hid
        · exact absurd hid (hfresh g hg submission' submission hsub' hsub)
      · rcases hmem g' hg' with hg' | rfl
        · exact absurd hid.symm (hfresh g' hg' submission submission' hsub hsub')
        · rw [Option.some.inj (hsub.symm.trans hsub')]
    case stored =>
      intro id invocation hlookup
      obtain ⟨g, hg, hsubmission⟩ := h.stored id invocation hlookup
      exact ⟨g, List.mem_append_left _ hg, hsubmission⟩
    case read =>
      intro g hg id invocation hread
      rcases hmem g hg with hg | rfl
      · exact h.read g hg id invocation hread
      · cases hread
    case counted =>
      intro id
      rw [howing]
      exact h.counted id
    case known => exact h.known
    case bounded => exact h.bounded
  call s i env t c before after hturn h := by
    refine ⟨exec_truthful env c s.shared.1, ?_⟩
    have hallowed := hturn.allowed.2
    refine Budgeted.exec env h c hturn.permitted ?_
    intro write hwrite current hcurrent hcan howner
    obtain ⟨hnobody, hcounted⟩ := hallowed write hwrite current hcurrent hcan howner
    constructor
    · rw [← hturn.books]
      exact owing_eq_zero hturn.obey hnobody
    · intro history hhistory
      exact hcounted t hturn.thread history (lastHistory_of_book t.task t.log hhistory)

/-- **The retry budget.**  In every interleaving of submissions, worker rounds, waits,
recoveries and cancellations in which every attempt that enters `retry` has counted all earlier
entries, the status of an invocation enters `retry` at most as often as its task allows. -/
theorem retries_within_budget (hd : d.publication = false)
    {s : System ports (MemRuntime × List (Event ports)) Operation}
    (hreach : Reachable (recordedMachine d) (freshSubmissions.and countsCurrent)
      ⟨({}, []), []⟩ s)
    {id : InvocationId} {invocation : InvocationDTO} {config : TaskConfig}
    (hstored : s.shared.1.backend.invocations.lookup id = some invocation)
    (hconfig : d.catalog.registry invocation.taskId = some config)
    (hmax : config.maxRetries ≤ u32Max) :
    entries s.shared.2 id ≤ config.maxRetries :=
  ((budgeted_upheld hd).obeyed hreach).2.bounded id invocation config hstored hconfig hmax

end Runs

/-! ### A retry that is claimed before it is recorded -/

instance {σ : Type} (s : System ports σ Operation) (op : Operation) :
    Decidable (freshSubmissions.start s op) :=
  inferInstanceAs (Decidable (Considered op ∧ ∀ submission ∈ op.submission?, ∀ t ∈ s.threads, _))

instance {σ : Type} (s : System ports σ Operation) (i : Nat) (c : PortCall) :
    Decidable (freshSubmissions.call s i c) :=
  inferInstanceAs (Decidable True)

instance (s : System ports (MemRuntime × List (Event ports)) Operation) (op : Operation) :
    Decidable (countsCurrent.start s op) :=
  inferInstanceAs (Decidable True)

instance (s : System ports (MemRuntime × List (Event ports)) Operation) (i : Nat) (c : PortCall) :
    Decidable (countsCurrent.call s i c) :=
  inferInstanceAs (Decidable (∀ write ∈ retryWrite? c,
    ∀ current ∈ s.shared.1.orchestrator.statusRecords.lookup write.1,
    current.status.canTransitionTo .retry = true → OwnershipOk current .retry write.2 →
    (∀ t ∈ s.threads, ∀ c' ∈ t.next?, owes? c' ≠ some write.1) ∧
    ∀ t ∈ s.threads[i]?, ∀ history ∈ lastHistory write.1 t.log,
      retryEntries (s.shared.1.backend.historyOf write.1) = retryEntries history))

/-- Somebody waits for `a`, and a first attempt at it fails. -/
def awaitedAttempt (calls : Nat) : List (Label Env Operation) :=
  .start (submitSerial "a") :: Label.steps 0 6 idleEnv ++
    .start (.waitFor ⟨"parent"⟩ ⟨"a"⟩) :: Label.steps 1 1 idleEnv ++
    .start (.work .rust ⟨"w1"⟩) :: Label.steps 2 calls failingEnv

/-- A failed attempt that ends before the next one begins uses up the budget. -/
theorem retries_within_budget_awaited :
    ∃ s invocation, Reachable (recordedMachine serialDeployment)
        (freshSubmissions.and countsCurrent) ⟨({}, []), []⟩ s ∧
      s.shared.1.backend.invocations.lookup ⟨"a"⟩ = some invocation ∧
      invocation.taskId = serialTask ∧ entries s.shared.2 ⟨"a"⟩ = 1 ∧
      entries s.shared.2 ⟨"a"⟩ ≤ serialConfig.maxRetries := by
  obtain ⟨s, hreach, hstored, hentries⟩ := Reachable.exists_of_run
    (recordedMachine serialDeployment) (freshSubmissions.and countsCurrent) ⟨({}, []), []⟩
    (awaitedAttempt 23)
    (fun s => (s.shared.1.backend.invocations.lookup (⟨"a"⟩ : InvocationId)).map
        InvocationDTO.taskId = some serialTask ∧ entries s.shared.2 ⟨"a"⟩ = 1)
    (by decide +kernel) (by decide +kernel)
  obtain ⟨invocation, hlookup, htask⟩ := Option.map_eq_some_iff.mp hstored
  refine ⟨s, invocation, hreach, hlookup, htask, hentries, ?_⟩
  exact retries_within_budget rfl hreach hlookup (by rw [htask]; rfl) (by decide)

/-- **A retry too many.**  A second worker takes the awaited retry before its entry is written,
counts none, and retries again, although the task allows one retry. -/
theorem awaited_retry_counted_twice :
    ∃ s, Reachable (recordedMachine serialDeployment) freshSubmissions ⟨({}, []), []⟩ s ∧
      (s.shared.1.backend.invocations.lookup (⟨"a"⟩ : InvocationId)).map InvocationDTO.taskId =
        some serialTask ∧
      serialDeployment.catalog.registry serialTask = some serialConfig ∧
      serialConfig.maxRetries < entries s.shared.2 ⟨"a"⟩ := by
  obtain ⟨s, hreach, hstored, hentries⟩ := Reachable.exists_of_run
    (recordedMachine serialDeployment) freshSubmissions ⟨({}, []), []⟩
    (awaitedAttempt 20 ++ .start (.work .rust ⟨"w2"⟩) :: Label.steps 3 20 failingEnv)
    (fun s => (s.shared.1.backend.invocations.lookup (⟨"a"⟩ : InvocationId)).map
        InvocationDTO.taskId = some serialTask ∧
      serialConfig.maxRetries < entries s.shared.2 ⟨"a"⟩)
    (by decide +kernel) (by decide +kernel)
  exact ⟨s, hreach, hstored, rfl, hentries⟩

end Rustvello.Mem
