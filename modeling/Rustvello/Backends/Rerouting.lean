import Rustvello.Core.Account
import Rustvello.Orchestration.Routing
import Rustvello.Sqlite.Runtime

/-!
# Rerouting without a route

`reroute_invocations` looks up the route of an invocation before its transaction where there
is one, and after the status write where there is none.  This module compares the two.

* `Holding` — what a backend holds about one invocation: status record, history, broker
  entries;
* `FailsCleanly` — the missing route of `x` has left `x` alone, and what was moved before it
  is queued;
* `Passes`, `Loses`, `ReachesUnrouted` — which invocations the ordered calls get past, and
  whether they come to one that they lose;
* `missing_route_clean_iff` — the ordered calls fail cleanly exactly when they come to no
  such invocation, the transactional ones always do.
-/

namespace Rustvello.Backends

open Concurrency Proto Rustvello.Core Orchestration

/-- What a backend holds about one invocation; history and broker entries have their own
types in each. -/
structure Holding (H E : Type) where
  record : Option InvocationStatusRecord
  history : List H
  entries : List E

/-- In memory. -/
def held (s : Mem.MemRuntime) (id : InvocationId) :
    Holding InvocationHistory Mem.QueuedInvocation where
  record := s.orchestrator.statusRecords.lookup id
  history := s.backend.historyOf id
  entries := s.broker.queue.filter fun item => item.invocationId = id

/-- In the tables of a database. -/
def stored (db : Sqlite.Database) (id : InvocationId) :
    Holding Sqlite.HistoryRow Sqlite.QueueRow where
  record := db.statusRecords.lookup id
  history := db.history.filter fun row => row.invocationId = id
  entries := db.brokerQueue.filter fun row => row.invocationId = id

/-- The error of an invocation that is not in the routes map. -/
def missingRouting (id : InvocationId) : RustvelloError :=
  .internal ("missing routing for invocation " ++ id.raw)

/-- Whenever the call answers that the route of `x` is missing, nothing has happened to `x`,
and every invocation before `x` that was moved has a broker entry. -/
def FailsCleanly {σ H E : Type} (view : σ → InvocationId → Holding H E) (ids : List InvocationId)
    (s : σ) (ends : RustvelloResult Unit → σ → Prop) : Prop :=
  ∀ x s', ends (.error (missingRouting x)) s' →
    view s' x = view s x ∧
      ∀ before after, ids = before ++ x :: after → ∀ y ∈ before,
        (view s' y).record ≠ (view s y).record → (view s' y).entries ≠ []

theorem missingRouting_inj {x y : InvocationId} (h : missingRouting x = missingRouting y) :
    x = y := by
  have htext : "missing routing for invocation " ++ x.raw =
      "missing routing for invocation " ++ y.raw := RustvelloError.internal.inj h
  have hraw : x.raw = y.raw := by simpa using htext
  cases x
  cases y
  exact congrArg InvocationId.mk hraw

/-! ## Ordered calls -/

section Ordered

variable (runnerId : RunnerId) (routes : List (InvocationId × String × F64)) (s : Mem.MemRuntime)

/-- The status machine lets the runner reroute the invocation. -/
def Accepted (id : InvocationId) : Prop :=
  ∃ old ∈ s.orchestrator.statusRecords.lookup id, Permitted runnerId old .rerouted

instance (id : InvocationId) : Decidable (Accepted runnerId s id) :=
  inferInstanceAs (Decidable (∃ old ∈ _, _))

/-- A racing runner has moved the invocation: the table refuses the transition. -/
def MovedOn (id : InvocationId) : Prop :=
  ∃ old ∈ s.orchestrator.statusRecords.lookup id,
    old.status.canTransitionTo .rerouted = false

instance (id : InvocationId) : Decidable (MovedOn s id) :=
  inferInstanceAs (Decidable (∃ old ∈ _, _))

/-- The call gets past the invocation: it skips it, or moves it and queues it again. -/
def Passes (id : InvocationId) : Prop :=
  MovedOn s id ∨ Accepted runnerId s id ∧ (s.backend.invocations.lookup id).isSome ∧
    ∃ route ∈ routes.lookup id, validateRouting route.1 route.2 = .ok ()

instance (id : InvocationId) : Decidable (Passes runnerId routes s id) :=
  inferInstanceAs (Decidable (_ ∨ _ ∧ _ ∧ ∃ route ∈ _, _))

/-- The invocation can be moved, but there is no route for it. -/
def Loses (id : InvocationId) : Prop :=
  Accepted runnerId s id ∧ (s.backend.invocations.lookup id).isSome ∧ routes.lookup id = none

instance (id : InvocationId) : Decidable (Loses runnerId routes s id) :=
  inferInstanceAs (Decidable (_ ∧ _ ∧ _))

/-- The call comes to an invocation that it loses. -/
def ReachesUnrouted : List InvocationId → Prop
  | [] => False
  | id :: rest => Loses runnerId routes s id ∨
      Passes runnerId routes s id ∧ ReachesUnrouted rest

instance decidableReachesUnrouted : (ids : List InvocationId) →
    Decidable (ReachesUnrouted runnerId routes s ids)
  | [] => inferInstanceAs (Decidable False)
  | _ :: rest =>
      have := decidableReachesUnrouted rest
      inferInstanceAs (Decidable (_ ∨ _ ∧ ReachesUnrouted runnerId routes s rest))

end Ordered

section OrderedCall

variable {d : Deployment} {runnerId : RunnerId} {routes : List (InvocationId × String × F64)}
  {id : InvocationId} {s s' : Mem.MemRuntime} {r : RustvelloResult Unit}

/-- Looking up the task and the arguments of an invocation changes nothing. -/
theorem getTriggerContext_ends {context : RustvelloResult (TaskId × SerializedArguments)}
    (h : Prog.EndsE Mem.MemRuntime.exec (getTriggerContext id) s context s') :
    s' = s ∧ ∃ found, context = .ok found := by
  obtain ⟨invocation, t, hread, h⟩ := endsE_attempt_bind.mp h
  obtain ⟨env, hexec⟩ := endsE_port.mp hread
  cases hexec
  split at h
  · obtain ⟨hcontext, hs⟩ := Prog.endsE_pure.mp h
    exact ⟨hs, _, hcontext⟩
  · obtain ⟨call, t, hread, h⟩ := endsE_attempt_bind.mp h
    obtain ⟨env', hexec⟩ := endsE_port.mp hread
    cases hexec
    split at h
    · obtain ⟨hcontext, hs⟩ := Prog.endsE_pure.mp h
      exact ⟨hs, _, hcontext⟩
    · obtain ⟨hcontext, hs⟩ := Prog.endsE_pure.mp h
      exact ⟨hs, _, hcontext⟩

/-- Recording a reroute adds a history entry, and cannot fail. -/
theorem recordReroute_ends {record : InvocationStatusRecord}
    (h : Prog.EndsE Mem.MemRuntime.exec (recordReroute d id runnerId record) s r s') :
    r = .ok () ∧ ∃ entry : InvocationHistory,
      s' = { s with backend := s.backend.addHistory entry } := by
  obtain ⟨answer, t, hadd, h⟩ := endsE_attempt_bind.mp h
  obtain ⟨env, hexec⟩ := endsE_port.mp hadd
  cases hexec
  by_cases htriggers : d.triggerManager = true
  · rw [if_pos htriggers] at h
    obtain ⟨context, t, hcontext, h⟩ | ⟨e, hcontext, -⟩ := Prog.endsE_bind.mp h
    swap
    · obtain ⟨-, found, hfound⟩ := getTriggerContext_ends hcontext
      cases hfound
    obtain ⟨rfl, -⟩ := getTriggerContext_ends hcontext
    obtain ⟨reported, t, hreport, h⟩ := endsE_attempt_bind.mp h
    obtain ⟨env', hexec⟩ := endsE_port.mp hreport
    cases hexec
    obtain ⟨hr, hs⟩ := Prog.endsE_pure.mp h
    exact ⟨hr, _, hs⟩
  · rw [if_neg htriggers] at h
    obtain ⟨hr, hs⟩ := Prog.endsE_pure.mp h
    exact ⟨hr, _, hs⟩

/-- What the calls for one invocation leave of all the others, and of itself. -/
structure Onward (s s' : Mem.MemRuntime) (id : InvocationId) : Prop where
  others : ∀ y, y ≠ id →
    s'.orchestrator.statusRecords.lookup y = s.orchestrator.statusRecords.lookup y
  invocations : s'.backend.invocations = s.backend.invocations
  itself : s'.orchestrator.statusRecords.lookup id = s.orchestrator.statusRecords.lookup id ∨
    ∃ record, s'.orchestrator.statusRecords.lookup id = some record ∧ record.status = .rerouted

/-- How the call goes on once the status is written. -/
def Requeued (routes : List (InvocationId × String × F64)) (s : Mem.MemRuntime)
    (id : InvocationId) (r : RustvelloResult Unit) : Prop :=
  match s.backend.invocations.lookup id, routes.lookup id with
  | none, _ => r = .error (.invocationNotFound id)
  | some _, none => r = .error (missingRouting id)
  | some _, some route => r = validateRouting route.1 route.2

/-- The second half of the calls for one invocation writes no status. -/
theorem queueAgain_ends
    (h : Prog.EndsE Mem.MemRuntime.exec (do
      let invocation ← port (.getInvocation id)
      let route ← routeFor routes id
      port (.routeInvocationWithOptions id (some invocation.taskId) route.1 route.2)) s r s') :
    s'.orchestrator = s.orchestrator ∧ s'.backend = s.backend ∧ Requeued routes s id r := by
  unfold Requeued
  cases hinvocation : s.backend.invocations.lookup id with
  | none =>
      have hread : ∀ env, Mem.MemRuntime.exec env (.getInvocation id) s =
          (.error (.invocationNotFound id), s) := by
        intro env
        simp only [Mem.MemRuntime.exec, Mem.BackendState.getInvocation, hinvocation]
      obtain ⟨env, invocation, t, hexec, -⟩ | ⟨env, e, hexec, hr⟩ := endsE_port_bind.mp h
      · rw [hread] at hexec
        cases hexec
      · rw [hread] at hexec
        cases hexec
        exact ⟨rfl, rfl, hr⟩
  | some row =>
      have hread : ∀ env, Mem.MemRuntime.exec env (.getInvocation id) s = (.ok row, s) := by
        intro env
        simp only [Mem.MemRuntime.exec, Mem.BackendState.getInvocation, hinvocation]
      obtain ⟨env, invocation, t, hexec, h⟩ | ⟨env, e, hexec, -⟩ := endsE_port_bind.mp h
      swap
      · rw [hread] at hexec
        cases hexec
      rw [hread] at hexec
      cases hexec
      cases hroute : routes.lookup id with
      | none =>
          have hmissing : routeFor routes id = throw (missingRouting id) := by
            unfold routeFor
            rw [hroute]
            rfl
          rw [hmissing] at h
          obtain ⟨route, t, hthrow, -⟩ | ⟨e, hthrow, rfl⟩ := Prog.endsE_bind.mp h
          · obtain ⟨hok, -⟩ := Prog.endsE_throw.mp hthrow
            cases hok
          · obtain ⟨he, rfl⟩ := Prog.endsE_throw.mp hthrow
            cases he
            exact ⟨rfl, rfl, rfl⟩
      | some route =>
          have hfound : routeFor routes id = pure route := by
            unfold routeFor
            rw [hroute]
          rw [hfound] at h
          obtain ⟨env', hexec⟩ := endsE_port.mp h
          simp only [Mem.MemRuntime.exec, Prod.mk.injEq] at hexec
          obtain ⟨rfl, rfl⟩ := hexec
          refine ⟨rfl, rfl, ?_⟩
          show (s.broker.routeInvocationWithOptions id _ route.1 route.2).1 = _
          unfold Mem.MemBroker.routeInvocationWithOptions
          split
          · rename_i e hinvalid
            exact hinvalid.symm
          · rename_i hvalid
            exact hvalid.symm

/-- **The calls for one invocation**: it is skipped, the call ends, or it is moved and its
route decides. -/
theorem rerouteOrdered_ends
    (hcall : Prog.EndsE Mem.MemRuntime.exec (rerouteOrdered d runnerId routes id) s r s') :
    (MovedOn s id ∧ r = .ok () ∧ s' = s) ∨
    (¬ MovedOn s id ∧ ¬ Accepted runnerId s id ∧ ∃ e, r = .error e ∧ ∀ x, e ≠ missingRouting x) ∨
    (Accepted runnerId s id ∧ Onward s s' id ∧
      s'.orchestrator.statusRecords.lookup id ≠ s.orchestrator.statusRecords.lookup id ∧
      Requeued routes s id r) := by
  obtain ⟨written, t, hwrite, h⟩ := endsE_attempt_bind.mp hcall
  obtain ⟨env, hexec⟩ := endsE_port.mp hwrite
  obtain ⟨old, record, ccIndex, ccReverse, hold, htrans, heq⟩ | ⟨old, e, hold, htrans, heq⟩ |
      ⟨hnone, heq⟩ :=
    s.orchestrator.setInvocationStatus_cases env.clock id .rerouted (some runnerId)
  · obtain ⟨hcan, hown, hrecord⟩ := (statusRecordTransition_ok_iff _ _ _ _ _).mp htrans
    have hstatus : record.status = .rerouted := by rw [hrecord]
    simp only [Mem.MemRuntime.exec, heq, Prod.mk.injEq] at hexec
    obtain ⟨rfl, rfl⟩ := hexec
    obtain ⟨_, t, hnote, h⟩ | ⟨e, hnote, -⟩ := Prog.endsE_bind.mp h
    swap
    · obtain ⟨hr, -⟩ := recordReroute_ends hnote
      cases hr
    obtain ⟨-, entry, rfl⟩ := recordReroute_ends hnote
    obtain ⟨horchestrator, hbackend, hrequeued⟩ := queueAgain_ends h
    have hrecords : s'.orchestrator.statusRecords =
        s.orchestrator.statusRecords.insert id record := by rw [horchestrator]
    refine .inr (.inr ⟨⟨old, hold, hcan, hown⟩, ⟨fun y hy => ?_, ?_, .inr ⟨record, ?_, hstatus⟩⟩,
      ?_, hrequeued⟩)
    · rw [hrecords, AList.lookup_insert_ne hy]
    · rw [hbackend]
      rfl
    · rw [hrecords, AList.lookup_insert]
    · rw [hrecords, AList.lookup_insert, hold]
      intro hsame
      rw [← Option.some.inj hsame, hstatus] at hcan
      exact absurd hcan (by decide)
  · have hrefused : written = .error (statusMachineErrorToRustvello e id old.status) ∧ t = s := by
      simp only [Mem.MemRuntime.exec, heq, Prod.mk.injEq] at hexec
      exact ⟨hexec.1.symm, hexec.2.symm⟩
    obtain ⟨rfl, rfl⟩ := hrefused
    dsimp only at h
    have hkind := isInvalidStatusTransition_statusMachineError e id old.status
    have htable := statusRecordTransition_transition_error_iff env.clock old .rerouted
      (some runnerId)
    by_cases hinvalid :
        (statusMachineErrorToRustvello e id old.status).isInvalidStatusTransition = true
    · obtain ⟨refusal, he⟩ := hkind.mp hinvalid
      have hcan : old.status.canTransitionTo .rerouted = false :=
        htable.mp ⟨refusal, by rw [htrans, he]⟩
      rw [if_pos hinvalid] at h
      obtain ⟨hr, hs⟩ := Prog.endsE_pure.mp h
      exact .inl ⟨⟨old, hold, hcan⟩, hr, hs⟩
    · rw [if_neg hinvalid] at h
      obtain ⟨hr, -⟩ := Prog.endsE_throw.mp h
      refine .inr (.inl ⟨?_, ?_, _, hr, ?_⟩)
      · rintro ⟨old', hold', hcan⟩
        obtain rfl : old = old' := Option.some.inj (hold.symm.trans hold')
        obtain ⟨refusal, hrefusal⟩ := htable.mpr hcan
        rw [htrans] at hrefusal
        exact hinvalid (hkind.mpr ⟨refusal, Except.error.inj hrefusal⟩)
      · rintro ⟨old', hold', hcan, hown⟩
        obtain rfl : old = old' := Option.some.inj (hold.symm.trans hold')
        rw [(statusRecordTransition_ok_iff _ _ _ _ _).mpr ⟨hcan, hown, rfl⟩] at htrans
        cases htrans
      · intro x
        cases e with
        | transition refusal => exact RustvelloError.noConfusion
        | ownership refusal => exact RustvelloError.noConfusion
  · have hunknown : written = .error (.invocationNotFound id) ∧ t = s := by
      simp only [Mem.MemRuntime.exec, heq, Prod.mk.injEq] at hexec
      exact ⟨hexec.1.symm, hexec.2.symm⟩
    obtain ⟨rfl, rfl⟩ := hunknown
    obtain ⟨hr, -⟩ := Prog.endsE_throw.mp h
    refine .inr (.inl ⟨?_, ?_, _, hr, fun x hx => by cases hx⟩)
    · rintro ⟨old, hold, -⟩
      rw [hnone] at hold
      cases hold
    · rintro ⟨old, hold, -⟩
      rw [hnone] at hold
      cases hold

/-- Skipped and moved invocations are told apart by the state before. -/
theorem not_loses_of_passes (h : Passes runnerId routes s id) : ¬ Loses runnerId routes s id := by
  rintro ⟨⟨old, hold, hcan, -⟩, -, hnone⟩
  rcases h with ⟨old', hold', hmoved⟩ | ⟨-, -, route, hroute, -⟩
  · obtain rfl : old = old' := Option.some.inj (Eq.trans (Eq.symm hold) hold')
    rw [hcan] at hmoved
    cases hmoved
  · rw [hnone] at hroute
    cases hroute

namespace Onward

/-- Nobody is lost, or passed, because of the calls for an invocation that was passed. -/
theorem passes_iff (h : Onward s s' id) (hid : Passes runnerId routes s id) (y : InvocationId) :
    Passes runnerId routes s' y ↔ Passes runnerId routes s y := by
  by_cases hy : y = id
  · subst hy
    rcases h.itself with hsame | ⟨record, hrecord, hstatus⟩
    · unfold Passes MovedOn Accepted
      rw [hsame, h.invocations]
    · have hmoved : MovedOn s' y := ⟨record, hrecord, by rw [hstatus]; decide⟩
      exact ⟨fun _ => hid, fun _ => .inl hmoved⟩
  · unfold Passes MovedOn Accepted
    rw [h.others y hy, h.invocations]

theorem loses_iff (h : Onward s s' id) (hid : Passes runnerId routes s id) (y : InvocationId) :
    Loses runnerId routes s' y ↔ Loses runnerId routes s y := by
  by_cases hy : y = id
  · subst hy
    have hafter : Passes runnerId routes s' y := (h.passes_iff hid y).mpr hid
    exact ⟨fun hlost => absurd hlost (not_loses_of_passes hafter),
      fun hlost => absurd hlost (not_loses_of_passes hid)⟩
  · unfold Loses Accepted
    rw [h.others y hy, h.invocations]

theorem reaches_iff (h : Onward s s' id) (hid : Passes runnerId routes s id)
    (ids : List InvocationId) :
    ReachesUnrouted runnerId routes s' ids ↔ ReachesUnrouted runnerId routes s ids := by
  induction ids with
  | nil => exact Iff.rfl
  | cons y rest ih => exact or_congr (h.loses_iff hid y) (and_congr (h.passes_iff hid y) ih)

end Onward

theorem rerouteOrdered_passes (hid : Passes runnerId routes s id)
    (h : Prog.EndsE Mem.MemRuntime.exec (rerouteOrdered d runnerId routes id) s r s') :
    r = .ok () ∧ Onward s s' id := by
  rcases rerouteOrdered_ends h with ⟨-, hr, rfl⟩ | ⟨hmoved, haccepted, -⟩ |
    ⟨haccepted, honward, -, hrequeued⟩
  · exact ⟨hr, fun _ _ => rfl, rfl, .inl rfl⟩
  · rcases hid with hid | ⟨hid, -⟩
    · exact absurd hid hmoved
    · exact absurd hid haccepted
  · rcases hid with ⟨old, hold, hmoved⟩ | ⟨-, hstored, route, hroute, hvalid⟩
    · obtain ⟨old', hold', hcan, -⟩ := haccepted
      obtain rfl : old' = old := Option.some.inj (Eq.trans (Eq.symm hold') hold)
      rw [hcan] at hmoved
      cases hmoved
    · obtain ⟨row, hrow⟩ := Option.isSome_iff_exists.mp hstored
      unfold Requeued at hrequeued
      rw [hrow, show routes.lookup id = some route from hroute] at hrequeued
      exact ⟨hrequeued.trans hvalid, honward⟩

theorem rerouteOrdered_loses (hid : Loses runnerId routes s id)
    (h : Prog.EndsE Mem.MemRuntime.exec (rerouteOrdered d runnerId routes id) s r s') :
    r = .error (missingRouting id) ∧
      s'.orchestrator.statusRecords.lookup id ≠ s.orchestrator.statusRecords.lookup id := by
  have hpasses : ¬ Passes runnerId routes s id := fun hp => not_loses_of_passes hp hid
  obtain ⟨haccepted, hstored, hnone⟩ := hid
  rcases rerouteOrdered_ends h with ⟨hmoved, -⟩ | ⟨-, hrefused, -⟩ | ⟨-, -, hchanged, hrequeued⟩
  · exact absurd (.inl hmoved) hpasses
  · exact absurd haccepted hrefused
  · obtain ⟨row, hrow⟩ := Option.isSome_iff_exists.mp hstored
    unfold Requeued at hrequeued
    rw [hrow, hnone] at hrequeued
    exact ⟨hrequeued, hchanged⟩

/-- Where the call stops for another reason, it says so. -/
theorem rerouteOrdered_stops (hpasses : ¬ Passes runnerId routes s id)
    (hloses : ¬ Loses runnerId routes s id)
    (h : Prog.EndsE Mem.MemRuntime.exec (rerouteOrdered d runnerId routes id) s r s') :
    ∃ e, r = .error e ∧ ∀ x, e ≠ missingRouting x := by
  rcases rerouteOrdered_ends h with ⟨hmoved, -⟩ | ⟨-, -, herror⟩ | ⟨haccepted, -, -, hrequeued⟩
  · exact absurd (.inl hmoved) hpasses
  · exact herror
  · unfold Requeued at hrequeued
    cases hinvocation : s.backend.invocations.lookup id with
    | none =>
        rw [hinvocation] at hrequeued
        exact ⟨_, hrequeued, fun x => RustvelloError.noConfusion⟩
    | some row =>
        have hstored : (s.backend.invocations.lookup id).isSome := by rw [hinvocation]; rfl
        cases hroute : routes.lookup id with
        | none => exact absurd ⟨haccepted, hstored, hroute⟩ hloses
        | some route =>
            rw [hinvocation, hroute] at hrequeued
            have hinvalid : validateRouting route.1 route.2 ≠ .ok () := fun hvalid =>
              hpasses (.inr ⟨haccepted, hstored, route, hroute, hvalid⟩)
            cases hvalidate : validateRouting route.1 route.2 with
            | ok u => exact absurd hvalidate hinvalid
            | error e =>
                obtain ⟨message, rfl⟩ := validateRouting_error hvalidate
                exact ⟨_, Eq.trans hrequeued hvalidate, fun x => RustvelloError.noConfusion⟩

/-- **The whole call.**  It answers that a route is missing exactly where it comes to an
invocation that it loses. -/
theorem rerouteInvocations_ends (hd : d.publication = false) {ids : List InvocationId}
    (h : Prog.EndsE Mem.MemRuntime.exec (rerouteInvocations d runnerId routes ids) s r s') :
    (ReachesUnrouted runnerId routes s ids → ∃ x, Loses runnerId routes s x ∧
      r = .error (missingRouting x) ∧
      s'.orchestrator.statusRecords.lookup x ≠ s.orchestrator.statusRecords.lookup x) ∧
    (¬ ReachesUnrouted runnerId routes s ids → ∀ x, r ≠ .error (missingRouting x)) := by
  induction ids generalizing s with
  | nil =>
      obtain ⟨hr, -⟩ := Prog.endsE_pure.mp h
      refine ⟨False.elim, fun _ x hx => ?_⟩
      rw [hr] at hx
      cases hx
  | cons id rest ih =>
      unfold rerouteInvocations at h
      simp only [hd, Bool.false_eq_true, if_false] at h
      by_cases hpasses : Passes runnerId routes s id
      · have hkeeps := not_loses_of_passes hpasses
        obtain ⟨_, t, hone, hrest⟩ | ⟨e, hone, -⟩ := Prog.endsE_bind.mp h
        swap
        · obtain ⟨hok, -⟩ := rerouteOrdered_passes hpasses hone
          cases hok
        obtain ⟨-, honward⟩ := rerouteOrdered_passes hpasses hone
        obtain ⟨hreached, hclean⟩ := ih hrest
        constructor
        · rintro (hlost | ⟨-, hreach⟩)
          · exact absurd hlost hkeeps
          · obtain ⟨x, hlost, hr, hchanged⟩ := hreached ((honward.reaches_iff hpasses rest).mpr hreach)
            have hlost' : Loses runnerId routes s x := (honward.loses_iff hpasses x).mp hlost
            have hx : x ≠ id := fun hx => hkeeps (hx ▸ hlost')
            rw [honward.others x hx] at hchanged
            exact ⟨x, hlost', hr, hchanged⟩
        · intro hsafe
          exact hclean fun hreach =>
            hsafe (.inr ⟨hpasses, (honward.reaches_iff hpasses rest).mp hreach⟩)
      · by_cases hloses : Loses runnerId routes s id
        · refine ⟨fun _ => ?_, fun hsafe => absurd (.inl hloses) hsafe⟩
          obtain ⟨_, t, hone, -⟩ | ⟨e, hone, hr⟩ := Prog.endsE_bind.mp h
          · obtain ⟨hok, -⟩ := rerouteOrdered_loses hloses hone
            cases hok
          · obtain ⟨he, hchanged⟩ := rerouteOrdered_loses hloses hone
            exact ⟨id, hloses, hr.trans (congrArg _ (Except.error.inj he)), hchanged⟩
        · constructor
          · rintro (hlost | ⟨hpassed, -⟩)
            · exact absurd hlost hloses
            · exact absurd hpassed hpasses
          · intro _ x hx
            obtain ⟨_, t, hone, -⟩ | ⟨e, hone, hr⟩ := Prog.endsE_bind.mp h
            · obtain ⟨e, hok, -⟩ := rerouteOrdered_stops hpasses hloses hone
              cases hok
            · obtain ⟨e', he, hother⟩ := rerouteOrdered_stops hpasses hloses hone
              rw [hr] at hx
              exact hother x ((Except.error.inj he).symm.trans (Except.error.inj hx))

end OrderedCall

/-! ## One transaction each -/

section Published

variable {env : Env} {db db' : Sqlite.Database} {id : InvocationId} {runnerId : RunnerId}
  {route : PublicationRoute} {e : RustvelloError}

/-- Everything a committed reroute has written. -/
theorem changeBody_reroute {done : Option (InvocationStatusRecord × Sqlite.Database)}
    (h : Sqlite.changeBody env id runnerId (.reroute route) false db = .ok done) :
    ∃ record taskId, done = some (record,
      (((((db.updateStatus id record).appendHistory
        (Sqlite.historyRow id record runnerId)).dequeue id).insertQueueRow id (some taskId)
        route.queue route.priority).deleteCcArgPairs id)) := by
  obtain ⟨_, -, h⟩ := bind_eq_ok.mp h
  obtain ⟨old, -, h⟩ := bind_eq_ok.mp h
  obtain ⟨prepared, hprepare, h⟩ := bind_eq_ok.mp h
  cases hprepare
  obtain ⟨written, hcomplete, h⟩ := bind_eq_ok.mp h
  cases h
  obtain ⟨_, -, h⟩ := bind_eq_ok.mp hcomplete
  obtain ⟨⟨record, db₁⟩, hmove, h⟩ := bind_eq_ok.mp h
  obtain ⟨_, -, h⟩ := bind_eq_ok.mp h
  obtain ⟨db₂, hpayload, h⟩ := bind_eq_ok.mp h
  cases hpayload
  obtain ⟨db₃, hroute, h⟩ := bind_eq_ok.mp h
  obtain ⟨db₄, hterminal, h⟩ := bind_eq_ok.mp h
  cases hterminal
  obtain ⟨_, -, h⟩ := bind_eq_ok.mp h
  cases h
  unfold Sqlite.transition at hmove
  split at hmove
  · cases hmove
  · cases hmove
    unfold Sqlite.writeRoute at hroute
    dsimp only [routeOf] at hroute
    split at hroute
    · cases hroute
    · rename_i row _
      obtain ⟨db₄, hpublish, hroute⟩ := bind_eq_ok.mp hroute
      obtain ⟨_, -, hpublish⟩ := bind_eq_ok.mp hpublish
      cases hpublish
      obtain ⟨_, -, hroute⟩ := bind_eq_ok.mp hroute
      cases hroute
      exact ⟨_, row.taskId, rfl⟩

/-- An injected fault does not look like a missing route. -/
theorem point_error {change : PublicationChange} {stage : String}
    (h : Sqlite.point env change stage = .error e) (x : InvocationId) : e ≠ missingRouting x := by
  unfold Sqlite.point Sqlite.boundary at h
  split at h
  · cases h
    exact RustvelloError.noConfusion
  · cases h

/-- Nor does any other error of a reroute. -/
theorem changeBody_error
    (h : Sqlite.changeBody env id runnerId (.reroute route) false db = .error e)
    (x : InvocationId) : e ≠ missingRouting x := by
  rcases bind_eq_error.mp h with hpoint | ⟨_, -, h⟩
  · exact point_error hpoint x
  rcases bind_eq_error.mp h with hcurrent | ⟨old, -, h⟩
  · unfold Sqlite.current at hcurrent
    split at hcurrent
    · cases hcurrent
      exact RustvelloError.noConfusion
    · cases hcurrent
  rcases bind_eq_error.mp h with hprepare | ⟨_, hprepare, h⟩
  · cases hprepare
  cases hprepare
  rcases bind_eq_error.mp h with hcomplete | ⟨_, -, h⟩
  swap
  · cases h
  rcases bind_eq_error.mp hcomplete with hpayload | ⟨_, -, h⟩
  · unfold Sqlite.checkPayload at hpayload
    split at hpayload
    · cases hpayload
      exact RustvelloError.noConfusion
    · cases hpayload
  rcases bind_eq_error.mp h with hmove | ⟨moved, -, h⟩
  · unfold Sqlite.transition at hmove
    split at hmove
    · rename_i refusal _
      cases hmove
      cases refusal with
      | transition t => exact RustvelloError.noConfusion
      | ownership o => exact RustvelloError.noConfusion
    · cases hmove
  rcases bind_eq_error.mp h with hpoint | ⟨_, -, h⟩
  · exact point_error hpoint x
  rcases bind_eq_error.mp h with hpayload | ⟨db₂, -, h⟩
  · cases hpayload
  rcases bind_eq_error.mp h with hroute | ⟨db₃, -, h⟩
  · unfold Sqlite.writeRoute at hroute
    dsimp only [routeOf] at hroute
    split at hroute
    · cases hroute
      exact RustvelloError.noConfusion
    · rcases bind_eq_error.mp hroute with hpublish | ⟨_, -, hroute⟩
      · rcases bind_eq_error.mp hpublish with hvalid | ⟨_, -, hpublish⟩
        · unfold Sqlite.validateRoute at hvalid
          split at hvalid
          · cases hvalid
            exact RustvelloError.noConfusion
          · cases hvalid
        · cases hpublish
      · rcases bind_eq_error.mp hroute with hpoint | ⟨_, -, hroute⟩
        · exact point_error hpoint x
        · cases hroute
  rcases bind_eq_error.mp h with hterminal | ⟨db₄, -, h⟩
  · cases hterminal
  rcases bind_eq_error.mp h with hpoint | ⟨_, -, h⟩
  · exact point_error hpoint x
  · cases h

/-- A reroute that is not committed has written nothing; a committed one touches one
invocation, and queues it. -/
theorem change_reroute (env : Env) (id : InvocationId) (runnerId : RunnerId)
    (route : PublicationRoute) (db : Sqlite.Database) :
    (∀ e x, (Sqlite.change env id runnerId (.reroute route) false db).1 = .error e →
      e ≠ missingRouting x) ∧
    (∀ y, y ≠ id →
      stored (Sqlite.change env id runnerId (.reroute route) false db).2 y = stored db y) ∧
    ((Sqlite.change env id runnerId (.reroute route) false db).2 = db ∨
      (stored (Sqlite.change env id runnerId (.reroute route) false db).2 id).entries ≠ []) := by
  unfold Sqlite.change
  cases hbody : Sqlite.changeBody env id runnerId (.reroute route) false db with
  | error e =>
      refine ⟨fun e' x he' => ?_, fun _ _ => rfl, .inl rfl⟩
      cases he'
      exact changeBody_error hbody x
  | ok done =>
      obtain ⟨record, taskId, rfl⟩ := changeBody_reroute hbody
      refine ⟨fun e x he => ?_, fun y hy => ?_, .inr ?_⟩
      · dsimp only at he
        cases hpoint : Sqlite.point env (.reroute route) "after_commit" with
        | ok u =>
            rw [hpoint] at he
            cases he
        | error e' =>
            rw [hpoint] at he
            cases he
            exact point_error hpoint x
      · have hne : id ≠ y := Ne.symm hy
        have hkept : (db.brokerQueue.filter fun row => !decide (row.invocationId = id)).filter
            (fun row => decide (row.invocationId = y)) =
            db.brokerQueue.filter fun row => decide (row.invocationId = y) := by
          rw [List.filter_filter]
          refine List.filter_congr fun row _ => ?_
          by_cases hrow : row.invocationId = y
          · simp [hrow, hy]
          · simp [hrow]
        simp [stored, Sqlite.Database.deleteCcArgPairs, Sqlite.Database.insertQueueRow,
          Sqlite.Database.dequeue, Sqlite.Database.deleteQueueRows, Sqlite.Database.appendHistory,
          Sqlite.Database.updateStatus, Sqlite.Database.lookup_updateRow, Sqlite.historyRow,
          hy, hne, hkept]
      · simp [stored, Sqlite.Database.deleteCcArgPairs, Sqlite.Database.insertQueueRow]

/-- Whoever was touched has a route, and is queued. -/
def Queues (routes : List (InvocationId × String × F64)) (db db' : Sqlite.Database) : Prop :=
  ∀ y, stored db' y = stored db y ∨ (stored db' y).entries ≠ [] ∧ (routes.lookup y).isSome

theorem Queues.trans {routes : List (InvocationId × String × F64)} {db'' : Sqlite.Database}
    (h : Queues routes db db') (h' : Queues routes db' db'') : Queues routes db db'' := by
  intro y
  rcases h' y with hsame | hqueued
  · rw [hsame]
    exact h y
  · exact .inr hqueued

variable {leaseMs : Nat} {routes : List (InvocationId × String × F64)} {r : RustvelloResult Unit}

/-- **One invocation, one transaction.** -/
theorem reroutePublished_ends
    (hcall : Prog.EndsE (Sqlite.exec leaseMs) (reroutePublished runnerId routes id) db r db') :
    Queues routes db db' ∧
      ∀ x, r = .error (missingRouting x) → x = id ∧ routes.lookup id = none := by
  cases hroute : routes.lookup id with
  | none =>
      have hmissing : routeFor routes id = throw (missingRouting id) := by
        unfold routeFor
        rw [hroute]
        rfl
      unfold reroutePublished at hcall
      rw [hmissing] at hcall
      obtain ⟨_, t, hthrow, -⟩ | ⟨e, hthrow, hr⟩ := Prog.endsE_bind.mp hcall
      · obtain ⟨hok, -⟩ := Prog.endsE_throw.mp hthrow
        cases hok
      · obtain ⟨he, rfl⟩ := Prog.endsE_throw.mp hthrow
        cases he
        refine ⟨fun _ => .inl rfl, fun x hx => ?_⟩
        rw [hr] at hx
        exact ⟨missingRouting_inj (Except.error.inj hx).symm, rfl⟩
  | some route =>
      have hfound : routeFor routes id = pure route := by
        unfold routeFor
        rw [hroute]
      unfold reroutePublished at hcall
      rw [hfound] at hcall
      obtain ⟨answer, t, hchange, h⟩ := endsE_attempt_bind.mp hcall
      obtain ⟨env, hexec⟩ := endsE_port.mp hchange
      obtain ⟨hnamed, hothers, hitself⟩ :=
        change_reroute env id runnerId ⟨route.1, route.2⟩ db
      have hexec' : Sqlite.change env id runnerId (.reroute ⟨route.1, route.2⟩) false db =
          (answer, t) := hexec
      rw [hexec'] at hnamed hothers hitself
      -- the rest only decides which errors are dropped
      have hrest : db' = t ∧ ∀ e, r = .error e → answer = .error e := by
        cases answer with
        | ok done =>
            obtain ⟨hr, hs⟩ := Prog.endsE_pure.mp h
            refine ⟨hs, fun e he => ?_⟩
            rw [hr] at he
            cases he
        | error e =>
            dsimp only at h
            split at h
            · obtain ⟨hr, hs⟩ := Prog.endsE_pure.mp h
              refine ⟨hs, fun e he => ?_⟩
              rw [hr] at he
              cases he
            · obtain ⟨hr, hs⟩ := Prog.endsE_throw.mp h
              refine ⟨hs, fun e he => ?_⟩
              rw [hr] at he
              rw [Except.error.inj he]
      obtain ⟨rfl, herrors⟩ := hrest
      constructor
      · intro y
        by_cases hy : y = id
        · subst hy
          rcases hitself with hsame | hqueued
          · rw [show db' = db from hsame]
            exact .inl rfl
          · exact .inr ⟨hqueued, by rw [hroute]; rfl⟩
        · exact .inl (hothers y hy)
      · intro x hx
        exact absurd rfl (hnamed _ x (herrors _ hx))

theorem rerouteInvocations_queues {d : Deployment} (hd : d.publication = true)
    {ids : List InvocationId}
    (h : Prog.EndsE (Sqlite.exec leaseMs) (rerouteInvocations d runnerId routes ids) db r db') :
    Queues routes db db' ∧ ∀ x, r = .error (missingRouting x) → routes.lookup x = none := by
  induction ids generalizing db with
  | nil =>
      obtain ⟨hr, rfl⟩ := Prog.endsE_pure.mp h
      refine ⟨fun _ => .inl rfl, fun x hx => ?_⟩
      rw [hr] at hx
      cases hx
  | cons id rest ih =>
      unfold rerouteInvocations at h
      simp only [hd, if_true] at h
      obtain ⟨_, t, hone, hrest⟩ | ⟨e, hone, hr⟩ := Prog.endsE_bind.mp h
      · obtain ⟨hqueues, -⟩ := reroutePublished_ends hone
        obtain ⟨hqueues', hmissing⟩ := ih hrest
        exact ⟨hqueues.trans hqueues', hmissing⟩
      · obtain ⟨hqueues, hmissing⟩ := reroutePublished_ends hone
        refine ⟨hqueues, fun x hx => ?_⟩
        rw [hr] at hx
        obtain ⟨rfl, hnone⟩ := hmissing x (congrArg _ (Except.error.inj hx))
        exact hnone

end Published

/-! ## Both paths -/

/-- The call has moved an invocation to `rerouted` when it finds no route for it. -/
theorem lost_of_reaches {d : Deployment} (hd : d.publication = false) {runnerId : RunnerId}
    {routes : List (InvocationId × String × F64)} {ids : List InvocationId} {s : Mem.MemRuntime}
    (hreach : ReachesUnrouted runnerId routes s ids) :
    ¬ FailsCleanly held ids s (Prog.EndsE Mem.MemRuntime.exec
      (rerouteInvocations d runnerId routes ids) s) := by
  intro hclean
  have : Nonempty Env := ⟨{}⟩
  obtain ⟨r, s', hends⟩ := Prog.ends_total Mem.MemRuntime.exec
    (rerouteInvocations d runnerId routes ids).run s
  obtain ⟨x, -, hr, hchanged⟩ := (rerouteInvocations_ends hd hends).1 hreach
  rw [hr] at hends
  obtain ⟨hsame, -⟩ := hclean x s' hends
  exact hchanged (congrArg Holding.record hsame)

/-- **A missing route leaves everything in order exactly when nobody is lost.**  One
transaction for each invocation fails cleanly; the ordered calls do if and only if they come
to no invocation that is stored, has no route, and would be accepted by the status machine:
that one is moved to `rerouted`, with a history entry, before its route is looked up. -/
theorem missing_route_clean_iff (d : Deployment) (runnerId : RunnerId)
    (routes : List (InvocationId × String × F64)) (ids : List InvocationId) :
    (∀ s : Mem.MemRuntime,
      FailsCleanly held ids s (Prog.EndsE Mem.MemRuntime.exec
          (rerouteInvocations { d with publication := false } runnerId routes ids) s) ↔
        ¬ ReachesUnrouted runnerId routes s ids) ∧
    (∀ (leaseMs : Nat) (db : Sqlite.Database),
      FailsCleanly stored ids db (Prog.EndsE (Sqlite.exec leaseMs)
          (rerouteInvocations { d with publication := true } runnerId routes ids) db)) := by
  constructor
  · intro s
    constructor
    · intro hclean hreach
      exact lost_of_reaches rfl hreach hclean
    · intro hsafe x s' hends
      exact absurd rfl ((rerouteInvocations_ends rfl hends).2 hsafe x)
  · intro leaseMs db x db' hends
    obtain ⟨hqueues, hmissing⟩ := rerouteInvocations_queues rfl hends
    constructor
    · rcases hqueues x with hsame | ⟨-, hrouted⟩
      · exact hsame
      · rw [hmissing x rfl] at hrouted
        cases hrouted
    · intro before after _ y _ hmoved
      rcases hqueues y with hsame | ⟨hqueued, -⟩
      · exact absurd (congrArg Holding.record hsame) hmoved
      · exact hqueued

/-- An invocation that was held back by concurrency control and is stored. -/
def heldBack : Mem.MemRuntime where
  orchestrator :=
    { statusRecords := AList.insert ⟨"held"⟩ ⟨.concurrencyControlled, none, 0⟩ ∅ }
  backend :=
    { invocations := AList.insert ⟨"held"⟩
        (InvocationDTO.new 0 ⟨"held"⟩ ⟨.rust, "module", "task"⟩
          ⟨⟨.rust, "module", "task"⟩, ""⟩) ∅ }

/-- Nothing is installed, and the ports share no transaction. -/
def orderedDeployment : Deployment where
  catalog := { registry := fun _ => none }
  sha256Hex := fun _ => ""
  triggerRunInvocationId := fun triggerRunId => ⟨triggerRunId⟩

/-- Without an entry in the routes map it is moved to `rerouted` and never queued. -/
theorem rerouted_without_route :
    ¬ FailsCleanly held [⟨"held"⟩] heldBack (Prog.EndsE Mem.MemRuntime.exec
      (rerouteInvocations orderedDeployment ⟨"runner"⟩ [] [⟨"held"⟩]) heldBack) :=
  lost_of_reaches rfl (by decide)

end Rustvello.Backends
