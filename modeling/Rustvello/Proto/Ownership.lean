import Rustvello.Proto.Status

/-!
# Ownership fencing over whole histories

`statusRecordTransition` judges one request.  This module follows an invocation
through an arbitrary finite sequence of requests, rejected ones leaving its record
as it was, and shows that the four ownership flags of the table together fence an
owned invocation: only its owner moves it, except into recovery or cancellation.

* `Ledger` — the stored record with the accepted requests, newest first;
* `Fenced` — the invariant: who owns the record, and that every entry into
  `running` since the last release was made by that owner;
* `fenced_submit` / `fenced_submitAll` — one request, then every sequence, keeps it;
* `ownershipFencing` — the statement about histories.
-/

namespace Rustvello.Proto

/-- One `set_invocation_status` request, with the clock reading at which it is served. -/
structure Request where
  target : InvocationStatus
  requester : Option RunnerId
  now : Timestamp
deriving DecidableEq, Repr

/-- The stored record of one invocation and the requests accepted so far, newest first. -/
structure Ledger where
  record : InvocationStatusRecord
  accepted : List Request
deriving Repr

namespace Ledger

/-- Serve one request: an accepted one replaces the record, a rejected one changes nothing. -/
def submit (l : Ledger) (q : Request) : Ledger :=
  match statusRecordTransition q.now (some l.record) q.target q.requester with
  | .ok record => ⟨record, q :: l.accepted⟩
  | .error _ => l

/-- Serve a sequence of requests in order. -/
def submitAll (l : Ledger) (requests : List Request) : Ledger :=
  requests.foldl submit l

/-- A freshly registered invocation; the record keeps the registering runner. -/
def registered (runnerId : Option RunnerId) (now : Timestamp) : Ledger :=
  ⟨⟨.registered, runnerId, now⟩, []⟩

/-- The request would be accepted now. -/
def Accepts (l : Ledger) (q : Request) : Prop :=
  ∃ record, statusRecordTransition q.now (some l.record) q.target q.requester = .ok record

theorem accepts_iff (l : Ledger) (q : Request) :
    l.Accepts q ↔ l.record.status.canTransitionTo q.target = true ∧
      OwnershipOk l.record q.target q.requester := by
  simp only [Accepts, statusRecordTransition_ok_iff]
  constructor
  · rintro ⟨record, hcan, hown, -⟩
    exact ⟨hcan, hown⟩
  · rintro ⟨hcan, hown⟩
    exact ⟨_, hcan, hown, rfl⟩

theorem submit_of_accepts {l : Ledger} {q : Request} (h : l.Accepts q) :
    l.submit q =
      ⟨⟨q.target, computeNewOwner (some l.record) q.target q.requester, q.now⟩,
        q :: l.accepted⟩ := by
  obtain ⟨record, hrecord⟩ := h
  obtain ⟨-, -, rfl⟩ := (statusRecordTransition_ok_iff _ _ _ _ _).mp hrecord
  simp [submit, hrecord]

theorem submit_of_not_accepts {l : Ledger} {q : Request} (h : ¬ l.Accepts q) :
    l.submit q = l := by
  unfold submit
  split
  · rename_i record hrecord
    exact absurd ⟨record, hrecord⟩ h
  · rfl

@[simp] theorem submitAll_nil (l : Ledger) : l.submitAll [] = l := rfl

@[simp] theorem submitAll_cons (l : Ledger) (q : Request) (qs : List Request) :
    l.submitAll (q :: qs) = (l.submit q).submitAll qs := rfl

/-- The most recent accepted request for `pending`. -/
def lastPending (l : Ledger) : Option Request :=
  l.accepted.find? fun q => q.target = .pending

end Ledger

/-- The targets that end a tenure: after one of them a different runner may claim. -/
def InvocationStatus.EndsTenure (status : InvocationStatus) : Prop :=
  status = .pendingRecovery ∨ status = .runningRecovery ∨ status = .rerouted ∨
    status = .killed ∨ status = .retry

instance (status : InvocationStatus) : Decidable status.EndsTenure :=
  inferInstanceAs (Decidable (_ ∨ _))

/-- The invariant of histories.  `tenure` and `released` speak about every earlier
entry into `running`: while the record is owned, an entry with no end of tenure
after it was made by the present owner; once it is released (and not terminal),
an end of tenure came after each of them. -/
structure Fenced (l : Ledger) : Prop where
  owned : l.record.status.Owned → ∃ w, l.record.runnerId = some w ∧
    l.lastPending.map Request.requester = some (some w)
  unowned : ¬ l.record.status.Owned → l.accepted ≠ [] → l.record.runnerId = none
  tenure : l.record.status.Owned → ∀ later entry earlier,
    l.accepted = later ++ entry :: earlier → entry.target = .running →
    (∀ q ∈ later, ¬ q.target.EndsTenure) → entry.requester = l.record.runnerId
  released : ¬ l.record.status.Owned → l.record.status.isTerminal = false →
    ∀ later entry earlier, l.accepted = later ++ entry :: earlier →
    entry.target = .running → ∃ q ∈ later, q.target.EndsTenure

theorem fenced_registered (runnerId : Option RunnerId) (now : Timestamp) :
    Fenced (Ledger.registered runnerId now) where
  owned h := by simp [Ledger.registered, InvocationStatus.Owned] at h
  unowned _ h := absurd rfl h
  tenure h := by simp [Ledger.registered, InvocationStatus.Owned] at h
  released _ _ later entry earlier h := by simp [Ledger.registered] at h

variable {l : Ledger}

variable {q : Request}

/-- Only the owner moves an owned record, unless the target takes over. -/
theorem requester_of_accepts (h : l.Accepts q) (howned : l.record.status.Owned) :
    q.requester = l.record.runnerId ∨ q.target.TakesOver := by
  obtain ⟨-, hown⟩ := (l.accepts_iff q).mp h
  rcases hown with hover | ⟨hreq, -⟩
  · exact .inr ((InvocationStatus.overridesOwnership_iff _).mp hover)
  · exact .inl (hreq ((InvocationStatus.requiresOwnership_iff _).mpr howned))

/-- A claim into `pending` comes from an available status and names its runner. -/
theorem pending_of_accepts (h : l.Accepts q) (hq : q.target = .pending) :
    l.record.status.isAvailableForRun = true ∧ ∃ w, q.requester = some w := by
  obtain ⟨hcan, hown⟩ := (l.accepts_iff q).mp h
  rw [hq] at hcan hown
  refine ⟨(InvocationStatus.canTransitionTo_pending_iff _).mp hcan, ?_⟩
  rcases hown with hover | ⟨-, hacq⟩
  · exact absurd hover (by decide)
  · exact Option.ne_none_iff_exists'.mp (hacq (by decide))

/-- `running` and `paused` are entered by the owner and keep the owner. -/
theorem owner_kept_of_accepts (h : l.Accepts q) (hq : q.target = .running ∨ q.target = .paused) :
    l.record.status.Owned ∧ q.requester = l.record.runnerId ∧
      computeNewOwner (some l.record) q.target q.requester = l.record.runnerId := by
  have howned : l.record.status.Owned :=
    InvocationStatus.owned_of_canTransitionTo_owned ((l.accepts_iff q).mp h).1 hq
  have hreq : q.requester = l.record.runnerId := by
    rcases requester_of_accepts h howned with hreq | hover
    · exact hreq
    · rcases hq with hq | hq <;> simp [InvocationStatus.TakesOver, hq] at hover
  refine ⟨howned, hreq, ?_⟩
  rcases hq with hq | hq <;> rw [hq] <;> rfl

/-- A released status that ends no tenure and is not terminal is entered only from
another released, non-terminal status. -/
theorem released_before_of_accepts (h : l.Accepts q) (howned : ¬ q.target.Owned)
    (hterm : q.target.isTerminal = false) (hends : ¬ q.target.EndsTenure) :
    ¬ l.record.status.Owned ∧ l.record.status.isTerminal = false := by
  have hcan := ((l.accepts_iff q).mp h).1
  revert hcan hends hterm howned
  generalize l.record.status = status
  generalize q.target = target
  revert status target
  decide

/-- **One request keeps the fence.** -/
theorem fenced_submit (hl : Fenced l) (q : Request) : Fenced (l.submit q) := by
  by_cases hacc : l.Accepts q
  case neg => rwa [Ledger.submit_of_not_accepts hacc]
  rw [Ledger.submit_of_accepts hacc]
  by_cases hpend : q.target = .pending
  · -- a new claim: the owner is its requester, and every earlier run was released
    obtain ⟨havail, w, hw⟩ := pending_of_accepts hacc hpend
    have hfree : ¬ l.record.status.Owned ∧ l.record.status.isTerminal = false := by
      revert havail
      generalize l.record.status = status
      revert status
      decide
    have hrel := hl.released hfree.1 hfree.2
    refine ⟨?_, ?_, ?_, ?_⟩
    · intro _
      refine ⟨w, ?_, by simp [Ledger.lastPending, hpend, hw]⟩
      simp only [hpend]
      exact hw
    · intro h
      exact absurd (.inl hpend) h
    · intro _ later entry earlier hsplit hentry hlater
      cases later with
      | nil =>
          simp only [List.nil_append, List.cons.injEq] at hsplit
          rw [← hsplit.1, hpend] at hentry
          cases hentry
      | cons q' later =>
          simp only [List.cons_append, List.cons.injEq] at hsplit
          obtain ⟨b, hb, hends⟩ := hrel later entry earlier hsplit.2 hentry
          exact absurd hends (hlater b (List.mem_cons_of_mem _ hb))
    · intro h
      exact absurd (.inl hpend) h
  · by_cases howned : q.target.Owned
    · -- `running` or `paused`: the tenure goes on
      have hrp : q.target = .running ∨ q.target = .paused := howned.resolve_left hpend
      obtain ⟨hold, hreq, hkeep⟩ := owner_kept_of_accepts hacc hrp
      refine ⟨?_, fun h => absurd howned h, ?_, fun h => absurd howned h⟩
      · intro _
        obtain ⟨w, hw, hlast⟩ := hl.owned hold
        refine ⟨w, hkeep.trans hw, ?_⟩
        simpa [Ledger.lastPending, hpend] using hlast
      · intro _ later entry earlier hsplit hentry hlater
        cases later with
        | nil =>
            simp only [List.nil_append, List.cons.injEq] at hsplit
            rw [← hsplit.1]
            exact hreq.trans hkeep.symm
        | cons q' later =>
            simp only [List.cons_append, List.cons.injEq] at hsplit
            have := hl.tenure hold later entry earlier hsplit.2 hentry
              fun b hb => hlater b (List.mem_cons_of_mem _ hb)
            exact this.trans hkeep.symm
    · -- a release
      refine ⟨fun h => absurd h howned, ?_, fun h => absurd h howned, ?_⟩
      · intro _ _
        have := (InvocationStatus.releasesOwnership_iff q.target).mpr howned
        simp [computeNewOwner, this]
      · intro _ hterm later entry earlier hsplit hentry
        cases later with
        | nil =>
            simp only [List.nil_append, List.cons.injEq] at hsplit
            rw [hsplit.1] at howned
            exact absurd (.inr (.inl hentry)) howned
        | cons q' later =>
            simp only [List.cons_append, List.cons.injEq] at hsplit
            by_cases hends : q.target.EndsTenure
            · exact ⟨q', List.mem_cons_self, hsplit.1 ▸ hends⟩
            · obtain ⟨hold, holdterm⟩ := released_before_of_accepts hacc howned hterm hends
              obtain ⟨b, hb, hbends⟩ := hl.released hold holdterm later entry earlier hsplit.2 hentry
              exact ⟨b, List.mem_cons_of_mem _ hb, hbends⟩

/-- **Every sequence of requests keeps the fence.** -/
theorem fenced_submitAll (hl : Fenced l) (requests : List Request) :
    Fenced (l.submitAll requests) := by
  induction requests generalizing l with
  | nil => exact hl
  | cons q requests ih => exact ih (fenced_submit hl q)

/-- A terminal record accepts nothing. -/
theorem not_accepts_of_isTerminal (h : l.record.status.isTerminal = true)
    (q : Request) : ¬ l.Accepts q := by
  intro hacc
  have := ((l.accepts_iff q).mp hacc).1
  rw [InvocationStatus.canTransitionTo_of_isTerminal h] at this
  cases this

theorem submitAll_of_isTerminal (h : l.record.status.isTerminal = true)
    (requests : List Request) : l.submitAll requests = l := by
  induction requests with
  | nil => rfl
  | cons q requests ih =>
      rw [Ledger.submitAll_cons, Ledger.submit_of_not_accepts (not_accepts_of_isTerminal h q)]
      exact ih

/-- Two entries into `running` by different runners are separated by an end of tenure. -/
theorem endsTenure_between
    (hearlier : ∀ newer b older, l.accepted = newer ++ b :: older →
      ∃ l', Fenced l' ∧ l'.accepted = older ∧ l'.Accepts b) {newer between older : List Request}
    {a b : Request} (hsplit : l.accepted = newer ++ b :: (between ++ a :: older))
    (ha : a.target = .running) (hb : b.target = .running) (hne : a.requester ≠ b.requester) :
    ∃ q ∈ between, q.target.EndsTenure := by
  obtain ⟨l', hl', hacc, hb'⟩ := hearlier _ _ _ hsplit
  obtain ⟨hold, hreq, -⟩ := owner_kept_of_accepts hb' (.inl hb)
  by_contra hnone
  push Not at hnone
  have := hl'.tenure hold between a older hacc ha hnone
  exact hne (this.trans hreq.symm)

/-- Each accepted request was accepted by an earlier ledger of the same history. -/
theorem accepted_at (hl : Fenced l)
    (hearlier : ∀ newer b older, l.accepted = newer ++ b :: older →
      ∃ l', Fenced l' ∧ l'.accepted = older ∧ l'.Accepts b) (requests : List Request) :
    ∀ newer b older, (l.submitAll requests).accepted = newer ++ b :: older →
      ∃ l', Fenced l' ∧ l'.accepted = older ∧ l'.Accepts b := by
  induction requests generalizing l with
  | nil => exact hearlier
  | cons q requests ih =>
      refine ih (fenced_submit hl q) ?_
      intro newer b older hsplit
      by_cases hacc : l.Accepts q
      · rw [Ledger.submit_of_accepts hacc] at hsplit
        cases newer with
        | nil =>
            simp only [List.nil_append, List.cons.injEq] at hsplit
            exact ⟨l, hl, hsplit.2, hsplit.1 ▸ hacc⟩
        | cons q' newer =>
            simp only [List.cons_append, List.cons.injEq] at hsplit
            exact hearlier newer b older hsplit.2
      · rw [Ledger.submit_of_not_accepts hacc] at hsplit
        exact hearlier newer b older hsplit

/-- **Ownership fencing.**  For an invocation that started `registered`, after every
sequence of requests: an owned record names the runner of the latest accepted claim;
only that runner moves it, recovery and cancellation excepted; a record released by a
transition has no owner; a terminal record never changes again; and two runs by
different runners are separated by a recovery, a reroute, a kill or a retry. -/
theorem ownershipFencing (runnerId : Option RunnerId) (now : Timestamp)
    (requests : List Request) :
    let l := (Ledger.registered runnerId now).submitAll requests
    (l.record.status.Owned → ∃ w, l.record.runnerId = some w ∧
      l.lastPending.map Request.requester = some (some w)) ∧
    (∀ q, l.record.status.Owned → l.Accepts q →
      q.requester = l.record.runnerId ∨ q.target.TakesOver) ∧
    (¬ l.record.status.Owned → l.accepted ≠ [] → l.record.runnerId = none) ∧
    (l.record.status.isTerminal = true →
      ∀ more, (∀ q, ¬ (l.submitAll more).Accepts q) ∧ l.submitAll more = l) ∧
    (∀ newer b between a older, l.accepted = newer ++ b :: (between ++ a :: older) →
      a.target = .running → b.target = .running → a.requester ≠ b.requester →
      ∃ q ∈ between, q.target.EndsTenure) := by
  intro l
  have hstart := fenced_registered runnerId now
  have hl : Fenced l := fenced_submitAll hstart requests
  refine ⟨hl.owned, fun q howned hacc => requester_of_accepts hacc howned, hl.unowned, ?_, ?_⟩
  · intro hterm more
    have hsame := submitAll_of_isTerminal hterm more
    refine ⟨fun q => ?_, hsame⟩
    rw [hsame]
    exact not_accepts_of_isTerminal hterm q
  · intro newer b between a older hsplit ha hb hne
    refine endsTenure_between (accepted_at hstart ?_ requests) hsplit ha hb hne
    intro newer b older h
    simp [Ledger.registered] at h

end Rustvello.Proto
