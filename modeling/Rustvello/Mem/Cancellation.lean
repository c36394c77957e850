import Rustvello.Mem.Runners

/-!
# Cancelling an invocation

`cancel_invocation` reads the status, asks for `cancelled`, and reads again if that was
refused, while workers, retries and recovery passes change the status in between.

* `cancelled_accepted` — from a status that is not final the write is accepted, whoever asks;
* `final_exec`, `final_of_reachable` — a final status is never changed;
* `judging` — the discipline: a refusal means that the status has become final;
* `cancellation_truthful` — what a call reports is true from then on, it is never a refusal,
  and no invocation gets a second final status.
-/

namespace Rustvello.Mem

open Concurrency Proto Rustvello.Core Orchestration

/-! ## Final statuses -/

/-- Cancelling overrides the owner, and every status that is not final allows it. -/
theorem cancelled_accepted (current : InvocationStatusRecord)
    (hopen : current.status.isTerminal = false) (runner : Option RunnerId) :
    current.status.canTransitionTo .cancelled = true ∧ OwnershipOk current .cancelled runner := by
  constructor
  · revert hopen
    cases current.status <;> decide
  · left
    rfl

/-- The status is final. -/
def Final (s : MemRuntime) (id : InvocationId) (status : InvocationStatus) : Prop :=
  status.isTerminal = true ∧ s.orchestrator.statusOf id = some status

variable {id : InvocationId} {s : MemRuntime}

theorem Final.unique {status status' : InvocationStatus} (h : Final s id status)
    (h' : s.orchestrator.statusOf id = some status') :
    status = status' :=
  Option.some.inj (h.2.symm.trans h')

/-- An invocation is registered only once. -/
def registersNew (s : MemRuntime) : runnerPorts.Op → Prop
  | .inl (.registerInvocationWithId id _ _) => s.orchestrator.statusRecords.lookup id = none
  | _ => True

/-- **A final status stays.** -/
theorem final_exec {status : InvocationStatus} (h : Final s id status) (env : Env)
    {c : runnerPorts.Op} (hc : registersNew s c) :
    Final (MemRuntime.execRunner env c s).2 id status := by
  have hlookup : ∃ record, s.orchestrator.statusRecords.lookup id = some record ∧
      record.status = status := Option.map_eq_some_iff.mp h.2
  obtain ⟨record, hrecord, hstatus⟩ := hlookup
  have hkept : (MemRuntime.execRunner env c s).2.orchestrator.statusRecords.lookup id =
      some record := by
    obtain hsame | ⟨x, call, runner, rfl, hregistered⟩ | ⟨x, next, runner, current, written, rfl,
      hcurrent, htrans, hwritten⟩ := MemRuntime.execRunner_statusRecords env c s
    · rw [hsame]
      exact hrecord
    · have hx : id ≠ x := by
        rintro rfl
        rw [show s.orchestrator.statusRecords.lookup id = none from hc] at hrecord
        cases hrecord
      rw [hregistered, AList.lookup_insert_ne hx]
      exact hrecord
    · have hx : id ≠ x := by
        rintro rfl
        obtain rfl : record = current := Option.some.inj (hrecord.symm.trans hcurrent)
        obtain ⟨hcan, -, -⟩ := (statusRecordTransition_ok_iff _ _ _ _ _).mp htrans
        rw [hstatus, InvocationStatus.canTransitionTo_of_isTerminal h.1] at hcan
        cases hcan
      rw [hwritten, AList.lookup_insert_ne hx]
      exact hrecord
  refine ⟨h.1, ?_⟩
  show ((MemRuntime.execRunner env c s).2.orchestrator.statusRecords.lookup id).map _ = some status
  rw [hkept, Option.map_some, hstatus]

/-- A status write is accepted and stored, refused by the machine, or about an unknown
invocation. -/
theorem statusWrite_cases (env : Env) (s : MemRuntime) (id : InvocationId)
    (status : InvocationStatus) (runner : Option RunnerId) :
    (∃ current record, s.orchestrator.statusRecords.lookup id = some current ∧
      current.status.canTransitionTo status = true ∧
      (MemRuntime.exec env (.setInvocationStatus id status runner) s).1 = .ok record ∧
      ∀ x, (MemRuntime.exec env (.setInvocationStatus id status runner) s).2.orchestrator.statusOf
        x = if x = id then some status else s.orchestrator.statusOf x) ∨
    (∃ current e, s.orchestrator.statusRecords.lookup id = some current ∧
      ¬ (current.status.canTransitionTo status = true ∧ OwnershipOk current status runner) ∧
      (current.status.canTransitionTo status = false → e.isInvalidStatusTransition = true) ∧
      MemRuntime.exec env (.setInvocationStatus id status runner) s = (.error e, s)) ∨
    (s.orchestrator.statusRecords.lookup id = none ∧
      MemRuntime.exec env (.setInvocationStatus id status runner) s =
        (.error (.invocationNotFound id), s)) := by
  obtain ⟨current, record, ccIndex, ccReverse, hcurrent, htrans, heq⟩ |
    ⟨current, e, hcurrent, htrans, heq⟩ | ⟨hnone, heq⟩ :=
    s.orchestrator.setInvocationStatus_cases env.clock id status runner
  · obtain ⟨hcan, -, hrecord⟩ := (statusRecordTransition_ok_iff _ _ _ _ _).mp htrans
    have hstatus : record.status = status := by rw [hrecord]
    have hanswer : (MemRuntime.exec env (.setInvocationStatus id status runner) s).1 =
        .ok record := by
      simp only [MemRuntime.exec, heq]
    refine .inl ⟨current, record, hcurrent, hcan, hanswer, ?_⟩
    intro x
    simp only [MemRuntime.exec, heq, OrchestratorState.statusOf]
    by_cases hx : x = id
    · subst hx
      rw [AList.lookup_insert, if_pos rfl, Option.map_some, hstatus]
    · rw [AList.lookup_insert_ne hx, if_neg hx]
  · have hexec : MemRuntime.exec env (.setInvocationStatus id status runner) s =
        (.error (statusMachineErrorToRustvello e id current.status), s) := by
      simp only [MemRuntime.exec, heq]
    refine .inr (.inl ⟨current, _, hcurrent, ?_, ?_, hexec⟩)
    · rintro ⟨hcan, hown⟩
      rw [(statusRecordTransition_ok_iff _ _ _ _ _).mpr ⟨hcan, hown, rfl⟩] at htrans
      cases htrans
    · intro hcan
      obtain ⟨t, ht⟩ :=
        (statusRecordTransition_transition_error_iff env.clock current status runner).mpr hcan
      rw [htrans] at ht
      rw [isInvalidStatusTransition_statusMachineError]
      exact ⟨t, Except.error.inj ht⟩
  · have hexec : MemRuntime.exec env (.setInvocationStatus id status runner) s =
        (.error (.invocationNotFound id), s) := by
      simp only [MemRuntime.exec, heq]
    exact .inr (.inr ⟨hnone, hexec⟩)

/-- A refused cancellation: the status is final already. -/
theorem final_of_refused {env : Env} {runner : Option RunnerId} {e : RustvelloError}
    (h : (MemRuntime.exec env (.setInvocationStatus id .cancelled runner) s).1 = .error e)
    (hrefusal : isRefusal e = true) :
    e.isInvalidStatusTransition = true ∧ ∃ status, Final s id status := by
  obtain ⟨current, record, -, -, hok, -⟩ | ⟨current, e', hcurrent, hrefused, htable, heq⟩ |
    ⟨-, heq⟩ := statusWrite_cases env s id .cancelled runner
  · rw [hok] at h
    cases h
  · have hterminal : current.status.isTerminal = true := by
      by_contra hopen
      exact hrefused (cancelled_accepted current (Bool.eq_false_iff.mpr hopen) runner)
    refine ⟨?_, current.status, hterminal, ?_⟩
    · rw [heq] at h
      obtain rfl : e' = e := Except.error.inj h
      exact htable (InvocationStatus.canTransitionTo_of_isTerminal hterminal _)
    · show (s.orchestrator.statusRecords.lookup id).map _ = some current.status
      rw [hcurrent, Option.map_some]
  · rw [heq] at h
    cases h
    cases hrefusal

/-! ## The discipline -/

/-- What a caller knows: a status that is final, and an invocation whose status is. -/
structure Verdict where
  known : Option (InvocationId × InvocationStatus) := none
  refused : Option InvocationId := none

/-- A status that was read, if it is final. -/
def Verdict.read (id : InvocationId) (status : InvocationStatus) (g : Verdict) : Verdict :=
  if status.isTerminal then { g with known := some (id, status) } else g

/-- A refusal means that the status is final. -/
def Verdict.refuse (id : InvocationId) (e : RustvelloError) (g : Verdict) : Verdict :=
  if e.isInvalidStatusTransition then { g with refused := some id } else g

/-- Everything may be called; what is answered about a final status is relied on. -/
def judging : Discipline runnerPorts RunnerTask Verdict where
  start _ := {}
  next
    | .inl (.getInvocationStatus id), .ok record, g => g.read id record.status
    | .inl (.setInvocationStatus id .cancelled _), .ok _, g =>
        { g with known := some (id, .cancelled) }
    | .inl (.setInvocationStatus id .cancelled _), .error e, g => g.refuse id e
    | _, _, g => g
  pre _ _ := True
  resp
    | .inl (.getInvocationStatus id), g, .ok record =>
        g.refused = some id → record.status.isTerminal = true
    | .inl c, _, .error e => isRefusal e = true → mayRefuse c = true ∧
        ∀ id runner, c = .setInvocationStatus id .cancelled runner →
          e.isInvalidStatusTransition = true
    | _, _, _ => True

section Programs

/-- The calls at which the discipline does not look. -/
def judged : PortCall → Bool
  | .getInvocationStatus _ | .setInvocationStatus _ .cancelled _ => true
  | _ => false

theorem calm_of_unjudged {c : PortCall} (hjudged : judged c = false)
    (hrefuse : mayRefuse c = false) : Calm judging.left c where
  quiet g := by
    cases c <;> try exact ⟨trivial, fun _ => rfl⟩
    case getInvocationStatus => cases hjudged
    case setInvocationStatus => cases hrefuse
  unrefused g e h := by
    have hresp : isRefusal e = true → mayRefuse c = true := by
      cases c <;> exact fun hrefusal => (h hrefusal).1
    cases hrefusal : isRefusal e with
    | false => rfl
    | true => rw [hresp hrefusal] at hrefuse; cases hrefuse

theorem judging_calmAside : CalmAside judging.left where
  lookups := ⟨fun _ => calm_of_unjudged rfl rfl, fun _ => calm_of_unjudged rfl rfl⟩
  reports := ⟨fun _ _ _ _ => calm_of_unjudged rfl rfl, fun _ _ _ _ => calm_of_unjudged rfl rfl,
    fun _ _ _ _ _ => calm_of_unjudged rfl rfl⟩
  release _ := calm_of_unjudged rfl rfl
  purge _ := calm_of_unjudged rfl rfl
  history _ := calm_of_unjudged rfl rfl

/-- What the outcome of a cancellation says is known. -/
def Reported (id : InvocationId) (outcome : CancelOutcome) (g : Verdict) : Prop :=
  match outcome with
  | .cancelled => g.known = some (id, .cancelled)
  | .alreadyFinal status => g.known = some (id, status)

variable {d : Deployment} (hd : d.publication = false) (id : InvocationId) (runner : RunnerId)
include hd

/-- The write: after a refusal the status is final, and no other error is a refusal. -/
theorem cancelledWrite_judged :
    judging.left.ObeysE (setInvocationStatus d id .cancelled runner)
      (fun _ g => g.known = some (id, .cancelled))
      (fun e g => isRefusal e = true → e.isInvalidStatusTransition = true ∧ g.refused = some id)
      {} := by
  unfold setInvocationStatus
  refine Discipline.ObeysE.bind
    ((steady_triggerContextFor judging_calmAside.lookups d id _).mono (fun _ _ h => h) ?_) ?_
  · rintro e _ ⟨-, he⟩ hrefusal
    rw [he] at hrefusal
    cases hrefusal
  · rintro context _ rfl
    refine judging_calmAside.setInvocationStatusWithContext_obeys hd id runner _ _ trivial
      (fun _ => rfl) ?_ ?_
    · intro e record he hrefusal
      rw [he] at hrefusal
      cases hrefusal
    · intro e hresp hrefusal
      have hinvalid : e.isInvalidStatusTransition = true := (hresp hrefusal).2 id (some runner) rfl
      refine ⟨hinvalid, ?_⟩
      show (if e.isInvalidStatusTransition then _ else _ : Verdict).refused = some id
      rw [if_pos hinvalid]

theorem cancelInvocation_judged :
    judging.left.ObeysE (cancelInvocation d id runner) (fun outcome g => Reported id outcome g)
      (fun e _ => isRefusal e = false) {} := by
  -- reading a status is never refused
  have hunread : ∀ {g : Verdict} {e : RustvelloError},
      judging.left.resp (.getInvocationStatus id) g (.error e) → isRefusal e = false := by
    intro g e hresp
    cases hrefusal : isRefusal e with
    | false => rfl
    | true => cases (hresp hrefusal).1
  have hrelease : Steady judging.left (releaseNontransactionalConcurrencySlot d id) := by
    unfold releaseNontransactionalConcurrencySlot
    rw [if_neg (by simp [hd])]
    exact (calm_of_unjudged rfl rfl).steady
  unfold cancelInvocation
  refine obeysE_port_bind.mpr ⟨trivial, fun current _ => ?_, fun e hresp => hunread hresp⟩
  have hread : judging.left.next (.getInvocationStatus id) (.ok current) {} =
      Verdict.read id current.status {} := rfl
  rw [hread]
  unfold Verdict.read
  split
  · rename_i hterminal
    rfl
  · refine obeysE_attempt_bind.mpr ((cancelledWrite_judged hd id runner).mono ?_ ?_)
    · intro record g hknown
      refine obeysE_attempt_bind.mpr ((hrelease g).mono ?_ ?_)
      · rintro _ _ rfl
        exact hknown
      · rintro _ _ ⟨rfl, -⟩
        exact hknown
    · intro e g hrefused
      dsimp only
      split
      · rename_i hinvalid
        have hrefusal : isRefusal e = true := by
          unfold isRefusal
          rcases hinvalid with h | h <;> simp [h]
        refine obeysE_port_bind.mpr ⟨trivial, fun now hresp => ?_, fun e hresp => hunread hresp⟩
        have hterminal : now.status.isTerminal = true := hresp (hrefused hrefusal).2
        have hnow : judging.left.next (.getInvocationStatus id) (.ok now) g =
            { g with known := some (id, now.status) } := if_pos hterminal
        rw [hnow]
        split
        · rename_i hcancelled
          show some (id, now.status) = some (id, .cancelled)
          rw [hcancelled]
        · rfl
      · rename_i hother
        cases hrefusal : isRefusal e with
        | false => exact hrefusal
        | true => exact absurd (.inl (hrefused hrefusal).1) hother

end Programs

/-! ## Runs -/

/-- The final status that an event gives to `id`. -/
def finalWrite? (id : InvocationId) : Event runnerPorts → Option InvocationStatus
  | ⟨.inl (.setInvocationStatus x status _), .ok _⟩ =>
      if x = id ∧ status.isTerminal = true then some status else none
  | _ => none

/-- The final statuses given to `id` in a run, newest first. -/
def finalWrites (id : InvocationId) (events : List (Event runnerPorts)) : List InvocationStatus :=
  events.filterMap (finalWrite? id)

/-- The current status, if it is final. -/
def finalStatus (s : MemRuntime) (id : InvocationId) : Option InvocationStatus :=
  (s.orchestrator.statusOf id).filter InvocationStatus.isTerminal

/-- Any operations at all, but an invocation is registered only once. -/
def registeredOnce : Guard runnerPorts (MemRuntime × List (Event runnerPorts)) RunnerTask where
  start _ _ := True
  call s _ c := registersNew s.shared.1 c

/-- What a caller knows is so. -/
def Verdict.Known (s : MemRuntime) (g : Verdict) : Prop :=
  ∀ id status, g.known = some (id, status) → Final s id status

/-- What was refused is final. -/
def Verdict.Refused (s : MemRuntime) (g : Verdict) : Prop :=
  ∀ id, g.refused = some id → ∃ status, Final s id status

/-- **The invariant.**  What callers know is so, and the one final status given to an invocation
is the one it has. -/
structure Judged (s : MemRuntime × List (Event runnerPorts)) (books : List Verdict) : Prop where
  known : ∀ g ∈ books, g.Known s.1
  refused : ∀ g ∈ books, g.Refused s.1
  once : ∀ id, finalWrites id s.2 = (finalStatus s.1 id).toList

section Runs

variable {d : Deployment} {s : MemRuntime} (env : Env)

/-- A call that writes no status leaves the final statuses as they are. -/
theorem finalStatus_aside {c : runnerPorts.Op} (hc : registersNew s c)
    (h : ∀ id status runner, c ≠ .inl (.setInvocationStatus id status runner)) (id : InvocationId) :
    finalStatus (MemRuntime.execRunner env c s).2 id = finalStatus s id := by
  unfold finalStatus OrchestratorState.statusOf
  obtain hsame | ⟨x, call, runner, rfl, hregistered⟩ | ⟨x, next, runner, current, written, rfl, -⟩ :=
    MemRuntime.execRunner_statusRecords env c s
  · rw [hsame]
  · rw [hregistered]
    by_cases hx : id = x
    · subst hx
      have hnone : s.orchestrator.statusRecords.lookup id = none := hc
      rw [AList.lookup_insert, hnone]
      rfl
    · rw [AList.lookup_insert_ne hx]
  · exact absurd rfl (h x next runner)

/-- Every call keeps the record of final statuses. -/
theorem once_exec {s : MemRuntime × List (Event runnerPorts)}
    (h : ∀ id, finalWrites id s.2 = (finalStatus s.1 id).toList) (env : Env) {c : runnerPorts.Op}
    (hc : registersNew s.1 c) (id : InvocationId) :
    finalWrites id (⟨c, (MemRuntime.execRunner env c s.1).1⟩ :: s.2) =
      (finalStatus (MemRuntime.execRunner env c s.1).2 id).toList := by
  by_cases hwrite : ∃ x status runner, c = .inl (.setInvocationStatus x status runner)
  · obtain ⟨x, status, runner, rfl⟩ := hwrite
    obtain ⟨current, record, hcurrent, hcan, hok, hstatus⟩ | ⟨current, e, -, -, -, heq⟩ | ⟨-, heq⟩ :=
      statusWrite_cases env s.1 x status runner
    · have hnow : finalStatus (MemRuntime.execRunner env (.inl (.setInvocationStatus x status runner))
          s.1).2 id = if id = x then (some status).filter InvocationStatus.isTerminal
            else finalStatus s.1 id := by
        show ((MemRuntime.exec env (.setInvocationStatus x status runner) s.1).2.orchestrator.statusOf
          id).filter _ = _
        rw [hstatus]
        split <;> rfl
      have hanswer : (MemRuntime.execRunner env (.inl (.setInvocationStatus x status runner))
          s.1).1 = .ok record := hok
      rw [hnow, hanswer]
      by_cases hid : id = x
      · subst hid
        rw [if_pos rfl]
        -- the status before was not final
        have hopen : finalStatus s.1 id = none := by
          have hterminal : current.status.isTerminal = false := by
            cases hterminal : current.status.isTerminal with
            | false => rfl
            | true =>
                rw [InvocationStatus.canTransitionTo_of_isTerminal hterminal] at hcan
                cases hcan
          simp [finalStatus, OrchestratorState.statusOf, hcurrent, hterminal]
        have hbefore : finalWrites id s.2 = [] := by
          rw [h, hopen]
          rfl
        cases hterminal : status.isTerminal with
        | true =>
            simpa [finalWrites, finalWrite?, hterminal, Option.filter_some] using hbefore
        | false =>
            simpa [finalWrites, finalWrite?, hterminal, Option.filter_some] using hbefore
      · rw [if_neg hid, ← h]
        simp [finalWrites, finalWrite?, Ne.symm hid]
    · have hexec : MemRuntime.execRunner env (.inl (.setInvocationStatus x status runner)) s.1 =
          (.error e, s.1) := heq
      rw [hexec, ← h]
      rfl
    · have hexec : MemRuntime.execRunner env (.inl (.setInvocationStatus x status runner)) s.1 =
          (.error (.invocationNotFound x), s.1) := heq
      rw [hexec, ← h]
      rfl
  · have haside : ∀ x status runner, c ≠ .inl (.setInvocationStatus x status runner) :=
      fun x status runner heq => hwrite ⟨x, status, runner, heq⟩
    rw [finalStatus_aside env hc haside, ← h]
    refine List.filterMap_cons_none ?_
    rcases c with c | c
    · cases c <;> first
        | rfl
        | exact absurd rfl (haside _ _ _)
    · rfl

/-- What is read of a status. -/
theorem readStatus_eq {env : Env} {id : InvocationId} {record : InvocationStatusRecord}
    (h : (MemRuntime.exec env (.getInvocationStatus id) s).1 = .ok record) :
    s.orchestrator.statusOf id = some record.status := by
  simp only [MemRuntime.exec, OrchestratorState.getInvocationStatus] at h
  split at h
  · rename_i found hfound
    obtain rfl : found = record := Except.ok.inj h
    simp [OrchestratorState.statusOf, hfound]
  · cases h

/-- The backends answer as is relied on. -/
theorem judged_answer {c : runnerPorts.Op} {g : Verdict}
    (hrefused : g.Refused s) : judging.resp c g (MemRuntime.execRunner env c s).1 := by
  rcases c with c | c
  · cases hanswer : (MemRuntime.exec env c s).1 with
    | error e =>
        show judging.resp (.inl c) g (MemRuntime.exec env c s).1
        rw [hanswer]
        have hresp : isRefusal e = true → mayRefuse c = true ∧
            ∀ id runner, c = .setInvocationStatus id .cancelled runner →
              e.isInvalidStatusTransition = true := by
          intro hrefusal
          constructor
          · by_contra hrefuses
            rw [exec_unrefused env s (Bool.eq_false_iff.mpr hrefuses) hanswer] at hrefusal
            cases hrefusal
          · rintro id runner rfl
            exact (final_of_refused hanswer hrefusal).1
        cases c <;> exact hresp
    | ok answer =>
        show judging.resp (.inl c) g (MemRuntime.exec env c s).1
        rw [hanswer]
        cases c <;> try trivial
        case getInvocationStatus id =>
            intro hrefusal
            obtain ⟨status, hfinal⟩ := hrefused id hrefusal
            have hread := readStatus_eq hanswer
            rw [← hfinal.unique hread]
            exact hfinal.1
  · trivial

theorem known_refuse (id : InvocationId) (e : RustvelloError) (g : Verdict) :
    (g.refuse id e).known = g.known := by
  unfold Verdict.refuse
  split <;> rfl

theorem refused_read (id : InvocationId) (status : InvocationStatus) (g : Verdict) :
    (g.read id status).refused = g.refused := by
  unfold Verdict.read
  split <;> rfl

/-- What the caller knows after a call. -/
theorem known_next {c : runnerPorts.Op} {g : Verdict} (hc : registersNew s c) (h : g.Known s) :
    (judging.next c (MemRuntime.execRunner env c s).1 g).Known (MemRuntime.execRunner env c s).2 := by
  have hold : g.Known (MemRuntime.execRunner env c s).2 := by
    intro id status hknown
    exact final_exec (h id status hknown) env hc
  rcases c with c | c
  · cases c <;> try exact hold
    case getInvocationStatus id =>
        cases hanswer : (MemRuntime.exec env (.getInvocationStatus id) s).1 with
        | error e =>
            show (judging.next (.inl (.getInvocationStatus id))
              (MemRuntime.exec env (.getInvocationStatus id) s).1 g).Known _
            rw [hanswer]
            exact hold
        | ok record =>
            show (judging.next (.inl (.getInvocationStatus id))
              (MemRuntime.exec env (.getInvocationStatus id) s).1 g).Known _
            rw [hanswer]
            show (if record.status.isTerminal then _ else _ : Verdict).Known _
            split
            · rename_i hterminal
              intro x status hknown
              obtain ⟨rfl, rfl⟩ := Prod.mk.inj (Option.some.inj hknown)
              exact ⟨hterminal, readStatus_eq hanswer⟩
            · exact hold
    case setInvocationStatus id status runner =>
        cases status <;> try exact hold
        case cancelled =>
            show (judging.next (.inl (.setInvocationStatus id .cancelled runner))
              (MemRuntime.exec env (.setInvocationStatus id .cancelled runner) s).1 g).Known _
            obtain ⟨current, record, -, -, hok, hstatus⟩ | ⟨current, e, -, -, -, heq⟩ | ⟨-, heq⟩ :=
              statusWrite_cases env s id .cancelled runner
            · rw [hok]
              intro x status hknown
              obtain ⟨rfl, rfl⟩ := Prod.mk.inj (Option.some.inj hknown)
              exact ⟨rfl, (hstatus id).trans (if_pos rfl)⟩
            · rw [heq]
              exact fun x status hknown => hold x status ((known_refuse id e g) ▸ hknown)
            · rw [heq]
              exact fun x status hknown => hold x status ((known_refuse id _ g) ▸ hknown)
  · exact hold

theorem refused_next {c : runnerPorts.Op} {g : Verdict} (hc : registersNew s c) (h : g.Refused s) :
    (judging.next c (MemRuntime.execRunner env c s).1 g).Refused
      (MemRuntime.execRunner env c s).2 := by
  have hold : g.Refused (MemRuntime.execRunner env c s).2 := by
    intro id hrefused
    obtain ⟨status, hfinal⟩ := h id hrefused
    exact ⟨status, final_exec hfinal env hc⟩
  rcases c with c | c
  · cases c <;> try exact hold
    case getInvocationStatus id =>
        show (judging.next (.inl (.getInvocationStatus id))
          (MemRuntime.exec env (.getInvocationStatus id) s).1 g).Refused _
        cases (MemRuntime.exec env (.getInvocationStatus id) s).1 with
        | error e => exact hold
        | ok record => exact fun x hrefused => hold x ((refused_read id record.status g) ▸ hrefused)
    case setInvocationStatus id status runner =>
        cases status <;> try exact hold
        case cancelled =>
            show (judging.next (.inl (.setInvocationStatus id .cancelled runner))
              (MemRuntime.exec env (.setInvocationStatus id .cancelled runner) s).1 g).Refused _
            cases hanswer : (MemRuntime.exec env (.setInvocationStatus id .cancelled runner) s).1 with
            | ok record => exact hold
            | error e =>
                show (if e.isInvalidStatusTransition then _ else _ : Verdict).Refused _
                split
                · rename_i hinvalid
                  intro x hrefused
                  obtain rfl := Option.some.inj hrefused
                  have hrefusal : isRefusal e = true := by simp [isRefusal, hinvalid]
                  obtain ⟨-, status, hfinal⟩ := final_of_refused hanswer hrefusal
                  exact ⟨status, final_exec hfinal env trivial⟩
                · exact hold
  · exact hold

theorem judged_upheld :
    judging.Upheld (fun _ => True) Judged (runnerMachine d).recorded registeredOnce
      ⟨({}, []), []⟩ where
  program _ _ _ := Discipline.Obeys.of_permitted (fun _ _ => trivial) _ _
  obey t ht := by cases ht
  logs t ht := by cases ht
  holds := by
    refine ⟨?_, ?_, fun _ => rfl⟩
    · intro g hg
      cases hg
    · intro g hg
      cases hg
  start s task _ h := by
    refine ⟨?_, ?_, h.once⟩
    · intro g hg id status hknown
      rcases List.mem_append.mp hg with hg | hg
      · exact h.known g hg id status hknown
      · obtain rfl := List.mem_singleton.mp hg
        cases hknown
    · intro g hg id hrefused
      rcases List.mem_append.mp hg with hg | hg
      · exact h.refused g hg id hrefused
      · obtain rfl := List.mem_singleton.mp hg
        cases hrefused
  call s i env t c before after hturn h := by
    have hown : judging.book t ∈ before ++ judging.book t :: after := by simp
    constructor
    · exact judged_answer env (h.refused _ hown)
    · refine ⟨?_, ?_, once_exec h.once env hturn.allowed⟩
      · refine forall_replace (P := Verdict.Known s.shared.1) h.known ?_ ?_
        · intro g hg id status hknown
          exact final_exec (hg id status hknown) env hturn.allowed
        · exact known_next env hturn.allowed (h.known _ hown)
      · refine forall_replace (P := Verdict.Refused s.shared.1) h.refused ?_ ?_
        · intro g hg id hrefused
          obtain ⟨status, hfinal⟩ := hg id hrefused
          exact ⟨status, final_exec hfinal env hturn.allowed⟩
        · exact refused_next env hturn.allowed (h.refused _ hown)

/-- A final status stays for the rest of the run. -/
theorem final_of_reachable {s s' : System runnerPorts (MemRuntime × List (Event runnerPorts)) RunnerTask}
    (hreach : Reachable (runnerMachine d).recorded registeredOnce s s') {id : InvocationId}
    {status : InvocationStatus} (h : Final s.shared.1 id status) : Final s'.shared.1 id status := by
  induction hreach with
  | refl => exact h
  | @next u u' l _ hallow happly ih =>
      obtain ⟨task, rfl, rfl⟩ | ⟨i, env, t, c, k, rfl, ht, hprog, rfl⟩ :=
        System.apply_cases happly
      · exact ih
      · have hnext : t.next? = some c := by simp [Thread.next?, hprog]
        exact final_exec ih env (hallow t ht c hnext)

/-- **A cancellation reports the truth.**  In every run of clients, workers, retries and recovery
passes in which no invocation is registered twice: from a call that returns `cancelled` on, the
status is `cancelled`; from one that returns `alreadyFinal` on, it is the status returned, which
is final; no call returns a refusal of the status machine; and every invocation is given at most
one final status. -/
theorem cancellation_truthful (hd : d.publication = false)
    {s : System runnerPorts (MemRuntime × List (Event runnerPorts)) RunnerTask}
    (hreach : Reachable (runnerMachine d).recorded registeredOnce ⟨({}, []), []⟩ s) :
    (∀ t ∈ s.threads, ∀ id runner, t.task = .operation (.cancel id runner) →
      (t.returned (cancelInvocation d id runner).run.inl = some (.ok .cancelled) →
        ∀ s', Reachable (runnerMachine d).recorded registeredOnce s s' →
          s'.shared.1.orchestrator.statusOf id = some .cancelled) ∧
      (∀ status, t.returned (cancelInvocation d id runner).run.inl =
          some (.ok (.alreadyFinal status)) → status.isTerminal = true ∧
        ∀ s', Reachable (runnerMachine d).recorded registeredOnce s s' →
          s'.shared.1.orchestrator.statusOf id = some status) ∧
      ∀ e, t.returned (cancelInvocation d id runner).run.inl = some (.error e) →
        e.isInvalidStatusTransition = false ∧ e.isOwnershipViolation = false ∧
          e.isStatusRaceCondition = false) ∧
    ∀ id, (finalWrites id s.shared.2).length ≤ 1 := by
  have hupheld := judged_upheld (d := d)
  obtain ⟨-, hjudged⟩ := hupheld.obeyed hreach
  constructor
  · intro t ht id runner htask
    have hobeys : judging.Obeys (cancelInvocation d id runner).run.inl
        (Discipline.Outcome (fun outcome g => Reported id outcome g)
          fun e _ => isRefusal e = false) (judging.start t.task) :=
      (Discipline.obeys_inl _).mpr (cancelInvocation_judged hd id runner)
    have hbook : judging.book t ∈ s.books judging.toMonitor := List.mem_map_of_mem ht
    refine ⟨?_, ?_, ?_⟩
    · intro hreturned s' hrest
      have hknown : (judging.book t).known = some (id, .cancelled) :=
        hupheld.outcome hreach ht hobeys hreturned
      exact (final_of_reachable hrest (hjudged.known _ hbook id _ hknown)).2
    · intro status hreturned
      have hknown : (judging.book t).known = some (id, status) :=
        hupheld.outcome hreach ht hobeys hreturned
      have hfinal := hjudged.known _ hbook id _ hknown
      exact ⟨hfinal.1, fun s' hrest => (final_of_reachable hrest hfinal).2⟩
    · intro e hreturned
      have hrefusal : isRefusal e = false := hupheld.outcome hreach ht hobeys hreturned
      unfold isRefusal at hrefusal
      simp only [Bool.or_eq_false_iff] at hrefusal
      exact ⟨hrefusal.1.1, hrefusal.1.2, hrefusal.2⟩
  · intro id
    rw [hjudged.once id]
    exact Option.length_toList_le

end Runs

/-! ### A cancellation that comes too late -/

instance (s : System runnerPorts (MemRuntime × List (Event runnerPorts)) RunnerTask)
    (task : RunnerTask) : Decidable (registeredOnce.start s task) :=
  .isTrue trivial

instance (s : System runnerPorts (MemRuntime × List (Event runnerPorts)) RunnerTask) (i : Nat)
    (c : runnerPorts.Op) : Decidable (registeredOnce.call s i c) := by
  rcases c with c | c
  · cases c
    case registerInvocationWithId id call runner =>
        exact inferInstanceAs (Decidable (s.shared.1.orchestrator.statusRecords.lookup id = none))
    all_goals exact .isTrue trivial
  · exact .isTrue trivial

/-- The cancellation reads `running`; the worker finishes before it writes. -/
def cancelledLate : List (Label Env RunnerTask) :=
  .start (.operation (submitSerial "a")) :: Label.steps 0 6 idleEnv ++
    .start (.operation (.work .rust ⟨"w"⟩)) :: Label.steps 1 19 idleEnv ++
    .start (.operation (.cancel ⟨"a"⟩ ⟨"client"⟩)) :: Label.steps 2 1 idleEnv ++
    Label.steps 1 1 idleEnv ++ Label.steps 2 2 idleEnv

theorem cancellation_truthful_late :
    ∃ s, Reachable (runnerMachine serialDeployment).recorded registeredOnce ⟨({}, []), []⟩ s ∧
      (∀ s', Reachable (runnerMachine serialDeployment).recorded registeredOnce s s' →
        s'.shared.1.orchestrator.statusOf ⟨"a"⟩ = some .success) ∧
      (finalWrites ⟨"a"⟩ s.shared.2).length ≤ 1 := by
  obtain ⟨s, hreach, t, ht, htask, hreturned⟩ := Reachable.exists_of_run
    (runnerMachine serialDeployment).recorded registeredOnce ⟨({}, []), []⟩ cancelledLate
    (fun s => ∃ t ∈ s.threads, t.task = .operation (.cancel ⟨"a"⟩ ⟨"client"⟩) ∧
      t.returned (cancelInvocation serialDeployment ⟨"a"⟩ ⟨"client"⟩).run.inl =
        some (.ok (.alreadyFinal .success)))
    (by decide +kernel) (by decide +kernel)
  obtain ⟨hreports, honce⟩ := cancellation_truthful rfl hreach
  exact ⟨s, hreach, ((hreports t ht _ _ htask).2.1 _ hreturned).2, honce _⟩

end Rustvello.Mem
