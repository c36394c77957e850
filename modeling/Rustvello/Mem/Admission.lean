import Rustvello.Mem.Orchestrator

/-!
# The two admission tests

A Rust worker takes a slot before it claims an invocation (`try_acquire_concurrency_slot`);
a batch worker asks whether there is room (`check_running_concurrency`).  The first test
counts everything that is indexed under a key, the second what is indexed and pending or
running.

* `SlotCall`, `run` — the calls that touch records and index;
* `Indexed` — what the index says about the invocations in it;
* `waiting`, `unindexed` — the invocations that only one of the tests sees;
* `tests_agree_iff` — the tests agree with the running invocations exactly where those do
  not fill the limit;
* `tests_disagree` — two queued invocations that were indexed at registration block each
  other in one test and not in the other.
-/

namespace Rustvello.Mem

open Proto Rustvello.Core

namespace OrchestratorState

/-! ## The index -/

theorem indexed_indexUnder (s : OrchestratorState) (id : InvocationId) (key k : CcKey) :
    (s.indexUnder id key).indexed k = if k = key then insert id (s.indexed key) else s.indexed k := by
  by_cases hk : k = key
  · subst hk
    simp [indexUnder, indexed]
  · simp [indexUnder, indexed, hk]

/-- Indexing under several keys. -/
theorem mem_indexed_foldl_indexUnder (id x : InvocationId) (keys : List CcKey) (k : CcKey)
    (s : OrchestratorState) :
    x ∈ (keys.foldl (fun s key => s.indexUnder id key) s).indexed k ↔
      x ∈ s.indexed k ∨ x = id ∧ k ∈ keys := by
  induction keys generalizing s with
  | nil => simp
  | cons key rest ih =>
      rw [List.foldl_cons, ih, indexed_indexUnder]
      by_cases hk : k = key
      · subst hk
        simp only [if_true, Finset.mem_insert, List.mem_cons, true_or, and_true]
        tauto
      · simp [hk]

theorem mem_indexed_unindexUnder (s : OrchestratorState) (id x : InvocationId) (key k : CcKey) :
    x ∈ (s.unindexUnder id key).indexed k ↔ x ∈ s.indexed k ∧ ¬ (x = id ∧ k = key) := by
  unfold unindexUnder
  cases hmembers : s.ccIndex.lookup key with
  | none =>
      have hempty : s.indexed key = ∅ := by simp [indexed, hmembers]
      constructor
      · intro hx
        refine ⟨hx, ?_⟩
        rintro ⟨-, rfl⟩
        rw [hempty] at hx
        cases hx
      · exact fun hx => hx.1
  | some members =>
      have hindexed : s.indexed key = members := by simp [indexed, hmembers]
      by_cases hk : k = key
      · subst hk
        rw [hindexed]
        dsimp only
        split
        · rename_i hempty
          have hnone : x ∉ members.erase id := by simp [hempty]
          simp only [Finset.mem_erase] at hnone
          simp [indexed]
          tauto
        · simp [indexed, and_comm]
      · dsimp only
        split
        · simp [indexed, hk]
        · simp [indexed, hk]

/-- Taking out from under several keys. -/
theorem mem_indexed_foldl_unindexUnder (id x : InvocationId) (keys : List CcKey) (k : CcKey)
    (s : OrchestratorState) :
    x ∈ (keys.foldl (fun s key => s.unindexUnder id key) s).indexed k ↔
      x ∈ s.indexed k ∧ ¬ (x = id ∧ k ∈ keys) := by
  induction keys generalizing s with
  | nil => simp
  | cons key rest ih =>
      rw [List.foldl_cons, ih, mem_indexed_unindexUnder, List.mem_cons]
      tauto

variable {s : OrchestratorState}

/-- Releasing takes out of the index and puts nothing in. -/
theorem mem_of_mem_indexed_remove {id x : InvocationId} {k : CcKey}
    (h : x ∈ (s.removeFromConcurrencyIndex id).indexed k) : x ∈ s.indexed k := by
  unfold removeFromConcurrencyIndex at h
  split at h
  · exact h
  · rename_i triples _
    exact ((mem_indexed_foldl_unindexUnder id x triples k _).mp h).1

theorem mem_indexed_remove_of_ne {id x : InvocationId} {k : CcKey} (hne : x ≠ id)
    (h : x ∈ s.indexed k) : x ∈ (s.removeFromConcurrencyIndex id).indexed k := by
  unfold removeFromConcurrencyIndex
  split
  · exact h
  · rename_i triples _
    exact (mem_indexed_foldl_unindexUnder id x triples k _).mpr ⟨h, fun hout => hne hout.1⟩

/-- Asking for a slot takes nobody out of the index. -/
theorem mem_indexed_tryAcquire {x : InvocationId} {k : CcKey} (h : x ∈ s.indexed k)
    (id : InvocationId) (taskId : TaskId) (config : TaskConfig)
    (ccArgs : Option SerializedArguments) :
    x ∈ (s.tryAcquireConcurrencySlot id taskId config ccArgs).2.indexed k := by
  unfold tryAcquireConcurrencySlot
  dsimp only
  split
  · exact h
  · split
    · exact h
    · exact (mem_indexed_foldl_indexUnder id x _ k s).mpr (.inl h)

end OrchestratorState

/-! ## Keys and calls -/

/-- The pairs under which an invocation of this call may be indexed: those of its
arguments, and the empty pair of the task-wide key. -/
def CarriesPair (call : CallDTO) (pair : String × String) : Prop :=
  pair = ("", "") ∨ pair ∈ call.serializedArguments.entries

instance (call : CallDTO) (pair : String × String) : Decidable (CarriesPair call pair) :=
  inferInstanceAs (Decidable (_ ∨ _))

/-- The call is one of this task and has this key. -/
def HasKey (call : CallDTO) (taskId : TaskId) (key : SerializedArguments) : Prop :=
  call.taskId = taskId ∧ ∀ pair ∈ key.ccArgPairs, CarriesPair call pair

instance (call : CallDTO) (taskId : TaskId) (key : SerializedArguments) :
    Decidable (HasKey call taskId key) :=
  inferInstanceAs (Decidable (_ ∧ ∀ _ ∈ _, _))

/-- A call on the orchestrator that touches records or index. -/
inductive SlotCall where
  | registerInvocationWithId (now : Timestamp) (id : InvocationId) (runnerId : Option RunnerId)
  | indexForConcurrencyControl (id : InvocationId) (ccArgs : Option SerializedArguments)
  | tryAcquireConcurrencySlot (id : InvocationId) (config : TaskConfig)
      (ccArgs : Option SerializedArguments)
  | setInvocationStatus (now : Timestamp) (id : InvocationId) (status : InvocationStatus)
      (runnerId : Option RunnerId)
  | removeFromConcurrencyIndex (id : InvocationId)

section Runs

-- the call that each invocation is for
variable (calls : InvocationId → CallDTO)

def SlotCall.apply (s : OrchestratorState) : SlotCall → OrchestratorState
  | registerInvocationWithId now id runnerId =>
      (s.registerInvocationWithId now id (calls id) runnerId).2
  | indexForConcurrencyControl id ccArgs =>
      s.indexForConcurrencyControl id (calls id).taskId ccArgs
  | tryAcquireConcurrencySlot id config ccArgs =>
      (s.tryAcquireConcurrencySlot id (calls id).taskId config ccArgs).2
  | setInvocationStatus now id status runnerId => (s.setInvocationStatus now id status runnerId).2
  | removeFromConcurrencyIndex id => s.removeFromConcurrencyIndex id

/-- An invocation is indexed only under keys of its own. -/
def SlotCall.Proper : SlotCall → Prop
  | indexForConcurrencyControl id ccArgs => ∀ key ∈ ccArgs, HasKey (calls id) (calls id).taskId key
  | tryAcquireConcurrencySlot id _ ccArgs =>
      ∀ key ∈ ccArgs, HasKey (calls id) (calls id).taskId key
  | _ => True

instance (op : SlotCall) : Decidable (op.Proper calls) :=
  match op with
  | .indexForConcurrencyControl id ccArgs | .tryAcquireConcurrencySlot id _ ccArgs =>
      inferInstanceAs (Decidable (∀ key ∈ ccArgs, HasKey (calls id) (calls id).taskId key))
  | .registerInvocationWithId _ _ _ | .setInvocationStatus _ _ _ _
  | .removeFromConcurrencyIndex _ => inferInstanceAs (Decidable True)

/-- The state after a sequence of calls on a fresh orchestrator. -/
def slotRun (ops : List SlotCall) : OrchestratorState :=
  ops.foldl (SlotCall.apply calls) {}

/-- Whatever is indexed is indexed under its own task and its own pairs. -/
def Indexed (s : OrchestratorState) : Prop :=
  ∀ x taskId name value, x ∈ s.indexed (taskId, name, value) →
    (calls x).taskId = taskId ∧ CarriesPair (calls x) (name, value)

variable {calls}

theorem Indexed.index {s : OrchestratorState} (h : Indexed calls s) (id : InvocationId)
    {pairs : List (String × String)} (hpairs : ∀ pair ∈ pairs, CarriesPair (calls id) pair) :
    Indexed calls ((pairs.map fun pair => ((calls id).taskId, pair.1, pair.2)).foldl
      (fun s key => s.indexUnder id key) s) := by
  intro x taskId name value hx
  rcases (OrchestratorState.mem_indexed_foldl_indexUnder _ _ _ _ _).mp hx with hold | ⟨rfl, hkey⟩
  · exact h x taskId name value hold
  · obtain ⟨pair, hpair, heq⟩ := List.mem_map.mp hkey
    simp only [Prod.mk.injEq] at heq
    obtain ⟨rfl, rfl, rfl⟩ := heq
    exact ⟨rfl, hpairs pair hpair⟩

theorem Indexed.of_indexed {s s' : OrchestratorState} (h : Indexed calls s)
    (hsub : ∀ x k, x ∈ s'.indexed k → x ∈ s.indexed k) : Indexed calls s' :=
  fun x taskId name value hx => h x taskId name value (hsub x _ hx)

/-- Every proper call keeps the index in order. -/
theorem Indexed.apply {s : OrchestratorState} (h : Indexed calls s) {op : SlotCall}
    (hop : op.Proper calls) : Indexed calls (op.apply calls s) := by
  cases op with
  | registerInvocationWithId now id runnerId => exact h
  | indexForConcurrencyControl id ccArgs =>
      have hpairs : ∀ pair ∈ (ccArgs.map SerializedArguments.ccArgPairs).getD [],
          CarriesPair (calls id) pair := by
        cases ccArgs with
        | none => simp
        | some key => exact (hop key rfl).2
      have hindex := h.index id hpairs
      simp only [SlotCall.apply, OrchestratorState.indexForConcurrencyControl]
      split
      · exact hindex
      · exact hindex
  | tryAcquireConcurrencySlot id config ccArgs =>
      have hpairs : ∀ pair ∈ (ccArgs.getD .empty).ccArgPairs, CarriesPair (calls id) pair := by
        cases ccArgs with
        | none =>
            intro pair hpair
            exact .inl (List.mem_singleton.mp hpair)
        | some key => exact (hop key rfl).2
      have hindex := h.index id hpairs
      simp only [SlotCall.apply, OrchestratorState.tryAcquireConcurrencySlot]
      split
      · exact h
      · split
        · exact h
        · exact hindex
  | setInvocationStatus now id status runnerId =>
      simp only [SlotCall.apply, OrchestratorState.setInvocationStatus]
      split
      · exact h
      · split
        · exact h
        · split
          · refine h.of_indexed fun x k hx => ?_
            have hmem := OrchestratorState.mem_of_mem_indexed_remove hx
            exact hmem
          · exact h
  | removeFromConcurrencyIndex id =>
      exact h.of_indexed fun x k hx => OrchestratorState.mem_of_mem_indexed_remove hx

theorem indexed_slotRun {ops : List SlotCall} (hops : ∀ op ∈ ops, op.Proper calls) :
    Indexed calls (slotRun calls ops) := by
  have hfold : ∀ (ops : List SlotCall) (s : OrchestratorState), (∀ op ∈ ops, op.Proper calls) →
      Indexed calls s → Indexed calls (ops.foldl (SlotCall.apply calls) s) := by
    intro ops
    induction ops with
    | nil => exact fun s _ h => h
    | cons op rest ih =>
        intro s hproper h
        rw [List.forall_mem_cons] at hproper
        exact ih _ hproper.2 (h.apply hproper.1)
  refine hfold ops {} hops ?_
  intro x taskId name value hx
  simp [OrchestratorState.indexed] at hx

end Runs

/-! ## The tests -/

section Tests

variable (calls : InvocationId → CallDTO) (s : OrchestratorState) (id : InvocationId)
  (key : SerializedArguments)

/-- The other invocations indexed under a key of an invocation. -/
def indexedOthers : Finset InvocationId :=
  ((s.slotMembers (calls id).taskId key.ccArgPairs).getD ∅).filter fun x => x ≠ id

/-- The other invocations of the same task and key that are pending or running. -/
def activeOthers : Finset InvocationId :=
  s.statusRecords.keys.toFinset.filter fun x =>
    x ≠ id ∧ s.isActive x = true ∧ HasKey (calls x) (calls id).taskId key

/-- Those that both tests count. -/
def holding : Finset InvocationId :=
  (indexedOthers calls s id key).filter fun x => s.isActive x = true

/-- Those that are indexed and still queued. -/
def waiting : Finset InvocationId :=
  (indexedOthers calls s id key).filter fun x => ¬ s.isActive x = true

/-- Those that are pending or running and not indexed. -/
def unindexed : Finset InvocationId :=
  activeOthers calls s id key \ indexedOthers calls s id key

variable {calls s id key}

theorem mem_indexedOthers {x : InvocationId} :
    x ∈ indexedOthers calls s id key ↔
      x ≠ id ∧ ∀ pair ∈ key.ccArgPairs, x ∈ s.indexed ((calls id).taskId, pair.1, pair.2) := by
  obtain ⟨members, hmembers, hmem⟩ := s.mem_slotMembers (calls id).taskId key.ccArgPairs_ne_nil
  rw [indexedOthers, hmembers, Option.getD_some, Finset.mem_filter, hmem, and_comm]

/-- Both tests see only invocations of that task and key. -/
theorem holding_subset (h : Indexed calls s) :
    holding calls s id key ⊆ activeOthers calls s id key := by
  intro x hx
  obtain ⟨hindexed, hactive⟩ := Finset.mem_filter.mp hx
  obtain ⟨hne, hpairs⟩ := mem_indexedOthers.mp hindexed
  have hrecord : x ∈ s.statusRecords.keys := by
    by_contra hnot
    have hnone : s.statusRecords.lookup x = none :=
      AList.lookup_eq_none.mpr fun hmem => hnot (AList.mem_keys.mp hmem)
    simp [OrchestratorState.isActive, OrchestratorState.statusOf, hnone] at hactive
  have hkey : HasKey (calls x) (calls id).taskId key := by
    obtain ⟨pair, hpair⟩ := List.exists_mem_of_ne_nil _ key.ccArgPairs_ne_nil
    exact ⟨(h x _ _ _ (hpairs pair hpair)).1, fun p hp => (h x _ _ _ (hpairs p hp)).2⟩
  exact Finset.mem_filter.mpr ⟨List.mem_toFinset.mpr hrecord, hne, hactive, hkey⟩

theorem card_indexedOthers :
    (indexedOthers calls s id key).card =
      (holding calls s id key).card + (waiting calls s id key).card :=
  (Finset.card_filter_add_card_filter_not _).symm

theorem card_activeOthers (h : Indexed calls s) :
    (activeOthers calls s id key).card =
      (holding calls s id key).card + (unindexed calls s id key).card := by
  have hinter : activeOthers calls s id key ∩ indexedOthers calls s id key =
      holding calls s id key := by
    ext x
    simp only [Finset.mem_inter, holding, Finset.mem_filter]
    constructor
    · rintro ⟨hactive, hindexed⟩
      exact ⟨hindexed, (Finset.mem_filter.mp hactive).2.2.1⟩
    · rintro ⟨hindexed, hactive⟩
      exact ⟨holding_subset h (Finset.mem_filter.mpr ⟨hindexed, hactive⟩), hindexed⟩
  rw [← hinter, unindexed, add_comm, Finset.card_sdiff_add_card_inter]

variable {config : TaskConfig} (hlimited : config.concurrencyControl ≠ .unlimited)
include hlimited

/-- A slot is granted when fewer than the limit of the others are indexed. -/
theorem tryAcquire_iff :
    (s.tryAcquireConcurrencySlot id (calls id).taskId config (some key)).1 = true ↔
      (indexedOthers calls s id key).card < config.limit := by
  have hreserved : s.reservedByOthers id (calls id).taskId key.ccArgPairs =
      (indexedOthers calls s id key).card := by
    obtain ⟨members, hmembers, _⟩ := s.mem_slotMembers (calls id).taskId key.ccArgPairs_ne_nil
    simp [OrchestratorState.reservedByOthers, indexedOthers, hmembers]
  unfold OrchestratorState.tryAcquireConcurrencySlot
  rw [if_neg hlimited]
  dsimp only [Option.getD_some]
  rw [hreserved]
  split
  · rename_i hfull
    simp [Nat.not_lt.mpr hfull]
  · rename_i hfree
    simp [Nat.lt_of_not_le hfree]

/-- There is room when fewer than the limit of the others are indexed and active; the
invocation itself is queued. -/
theorem checkRunning_iff (hqueued : s.isActive id = false) :
    s.checkRunningConcurrency (calls id).taskId config (some key) = true ↔
      (holding calls s id key).card < config.limit := by
  have hsame : ((s.slotMembers (calls id).taskId key.ccArgPairs).getD ∅).filter
      (fun x => s.isActive x = true) = holding calls s id key := by
    ext x
    simp only [holding, indexedOthers, Finset.mem_filter]
    constructor
    · rintro ⟨hmem, hactive⟩
      refine ⟨⟨hmem, ?_⟩, hactive⟩
      rintro rfl
      rw [hqueued] at hactive
      cases hactive
    · rintro ⟨⟨hmem, _⟩, hactive⟩
      exact ⟨hmem, hactive⟩
  unfold OrchestratorState.checkRunningConcurrency
  rw [if_neg hlimited]
  dsimp only
  rw [hsame, decide_eq_true_eq]

end Tests

/-- **The two tests.**  After any sequence of proper calls, for a queued invocation and
one of its keys: the slot is granted exactly when the batch test finds room, and that is
exactly when fewer than the limit of the other invocations of that task and key are
pending or running, if and only if the ones that both tests count fill the limit, or
neither the queued ones in the index nor the active ones outside of it do. -/
theorem tests_agree_iff (calls : InvocationId → CallDTO) {ops : List SlotCall}
    (hops : ∀ op ∈ ops, op.Proper calls) {id : InvocationId} {status : InvocationStatus}
    (hstatus : (slotRun calls ops).statusOf id = some status)
    (havailable : status.isAvailableForRun = true) {config : TaskConfig}
    (hlimited : config.concurrencyControl ≠ .unlimited) (key : SerializedArguments) :
    let s := slotRun calls ops
    let taskId := (calls id).taskId
    let held := (holding calls s id key).card
    (((s.tryAcquireConcurrencySlot id taskId config (some key)).1 = true ↔
        s.checkRunningConcurrency taskId config (some key) = true) ∧
      (s.checkRunningConcurrency taskId config (some key) = true ↔
        (activeOthers calls s id key).card < config.limit)) ↔
      (config.limit ≤ held ∨
        (held + (waiting calls s id key).card < config.limit ∧
          held + (unindexed calls s id key).card < config.limit)) := by
  intro s taskId held
  have hqueued : s.isActive id = false := by
    have hnot : ∀ status : InvocationStatus, status.isAvailableForRun = true →
        decide (status = .pending ∨ status = .running) = false := by decide
    show (s.statusOf id).any _ = false
    rw [hstatus]
    exact hnot status havailable
  have hindexed : Indexed calls s := indexed_slotRun hops
  rw [tryAcquire_iff hlimited, checkRunning_iff hlimited hqueued, card_indexedOthers,
    card_activeOthers hindexed]
  show (_ ↔ held < _) ∧ (held < _ ↔ _) ↔ _
  omega

/-- Every invocation is a call of one task without arguments. -/
def plainCalls : InvocationId → CallDTO :=
  fun _ => ⟨⟨⟨.rust, "app", "job"⟩, "none"⟩, ⟨.rust, "app", "job"⟩, .empty⟩

/-- Invocations that were registered, and indexed at registration. -/
def queuedOps (ids : List InvocationId) : List SlotCall :=
  ids.flatMap fun id => [.registerInvocationWithId 0 id none, .indexForConcurrencyControl id (some .empty)]

/-- With room for three, an invocation is admitted by both tests next to a queued one and one
that a worker has claimed. -/
theorem tests_agree_three :
    let s := slotRun plainCalls (queuedOps [⟨"a"⟩, ⟨"b"⟩, ⟨"c"⟩] ++
      [.setInvocationStatus 0 ⟨"c"⟩ .pending (some ⟨"w"⟩)])
    let config : TaskConfig := { concurrencyControl := .task, runningConcurrency := some 3 }
    (s.tryAcquireConcurrencySlot ⟨"a"⟩ ⟨.rust, "app", "job"⟩ config (some .empty)).1 = true ↔
      s.checkRunningConcurrency ⟨.rust, "app", "job"⟩ config (some .empty) = true := by
  intro s config
  have hiff := @tests_agree_iff plainCalls (queuedOps [⟨"a"⟩, ⟨"b"⟩, ⟨"c"⟩] ++
    [.setInvocationStatus 0 ⟨"c"⟩ .pending (some ⟨"w"⟩)]) (by decide +kernel) ⟨"a"⟩ .registered
    (by decide +kernel) (by decide) config (by decide) .empty
  exact (hiff.mpr (by decide +kernel)).1

/-- Two registered invocations, both indexed at registration: the batch test finds room
for either, and neither is granted a slot. -/
theorem tests_disagree :
    let ops := queuedOps [⟨"a"⟩, ⟨"b"⟩]
    let config : TaskConfig := { concurrencyControl := .task }
    (∀ op ∈ ops, op.Proper plainCalls) ∧
      (slotRun plainCalls ops).statusOf ⟨"a"⟩ = some .registered ∧
      (slotRun plainCalls ops).checkRunningConcurrency ⟨.rust, "app", "job"⟩ config
        (some .empty) = true ∧
      ((slotRun plainCalls ops).tryAcquireConcurrencySlot ⟨"a"⟩ ⟨.rust, "app", "job"⟩
        config (some .empty)).1 = false := by
  decide +kernel

end Rustvello.Mem
