import Rustvello.Mem.SlotKeys
import Rustvello.Backends.Blocking

/-!
# The concurrency index and its reverse map

The in-memory orchestrator keeps who holds a slot twice: by key in `cc_index`, by invocation in
`cc_reverse`.  Six methods write the two maps, and three of them carry a copy of the loop that
takes an invocation out again.

* `IndexCall` — the calls, with the registration that a status write needs;
* `Mirror` — the maps hold the same pairs, and neither keeps an empty entry;
* `Mirror.enter`, `Mirror.leave` — the two ways the maps change;
* `concurrencyIndex_mirrored` — after any sequence of calls, and what the last one cleared.
-/

namespace Rustvello.Mem

open Proto Rustvello.Core

namespace OrchestratorState

/-- The keys that the reverse map lists for an invocation. -/
def listed (s : OrchestratorState) (id : InvocationId) : List CcKey :=
  (s.ccReverse.lookup id).getD []

end OrchestratorState

/-- A call on the orchestrator that writes the index, or the records that a status write is
checked against. -/
inductive IndexCall where
  | registerInvocationWithId (now : Timestamp) (id : InvocationId) (call : CallDTO)
      (runnerId : Option RunnerId)
  | indexForConcurrencyControl (id : InvocationId) (taskId : TaskId)
      (ccArgs : Option SerializedArguments)
  | tryAcquireConcurrencySlot (id : InvocationId) (taskId : TaskId) (config : TaskConfig)
      (ccArgs : Option SerializedArguments)
  | removeFromConcurrencyIndex (id : InvocationId)
  | setInvocationStatus (now : Timestamp) (id : InvocationId) (status : InvocationStatus)
      (runnerId : Option RunnerId)
  | removeInvocation (id : InvocationId)
  | purge

namespace IndexCall

def apply (s : OrchestratorState) : IndexCall → OrchestratorState
  | registerInvocationWithId now id call runnerId =>
      (s.registerInvocationWithId now id call runnerId).2
  | indexForConcurrencyControl id taskId ccArgs => s.indexForConcurrencyControl id taskId ccArgs
  | tryAcquireConcurrencySlot id taskId config ccArgs =>
      (s.tryAcquireConcurrencySlot id taskId config ccArgs).2
  | removeFromConcurrencyIndex id => s.removeFromConcurrencyIndex id
  | setInvocationStatus now id status runnerId => (s.setInvocationStatus now id status runnerId).2
  | removeInvocation id => Backends.removeInvocation s id
  | purge => Backends.purgeAll s

/-- After a sequence of calls on a fresh orchestrator. -/
def stateAfter (calls : List IndexCall) : OrchestratorState :=
  calls.foldl apply {}

/-- A removal, an accepted terminal status or a purge: the call ends every slot of the
invocation. -/
def Clears (s : OrchestratorState) (id : InvocationId) : IndexCall → Prop
  | removeFromConcurrencyIndex x | removeInvocation x => x = id
  | setInvocationStatus now x status runnerId =>
      x = id ∧ status.isTerminal = true ∧
        ∃ record, (s.setInvocationStatus now x status runnerId).1 = .ok record
  | purge => True
  | _ => False

end IndexCall

/-- The two maps hold the same pairs, and no entry of either is empty. -/
structure Mirror (s : OrchestratorState) : Prop where
  mirrored : ∀ id key, id ∈ s.indexed key ↔ key ∈ s.listed id
  indexFilled : ∀ key, s.ccIndex.lookup key ≠ some ∅
  reverseFilled : ∀ id, s.ccReverse.lookup id ≠ some []

section Entries

variable {s s' : OrchestratorState}

theorem indexFilled_indexUnder (h : ∀ key, s.ccIndex.lookup key ≠ some ∅) (id : InvocationId)
    (key k : CcKey) : (s.indexUnder id key).ccIndex.lookup k ≠ some ∅ := by
  unfold OrchestratorState.indexUnder
  by_cases hk : k = key
  · subst hk
    simp
  · rw [AList.lookup_insert_ne hk]
    exact h k

theorem indexFilled_unindexUnder (h : ∀ key, s.ccIndex.lookup key ≠ some ∅) (id : InvocationId)
    (key k : CcKey) : (s.unindexUnder id key).ccIndex.lookup k ≠ some ∅ := by
  unfold OrchestratorState.unindexUnder
  split
  · exact h k
  · rename_i members hmembers
    by_cases hk : k = key
    · subst hk
      split
      · -- the last one of its set
        simp
      · rename_i hrest
        simpa using hrest
    · split
      · rw [AList.lookup_erase_ne hk]
        exact h k
      · rw [AList.lookup_insert_ne hk]
        exact h k

/-- Going through a list of keys leaves no empty set where no single key does. -/
theorem indexFilled_foldl {step : OrchestratorState → CcKey → OrchestratorState}
    (hstep : ∀ s, (∀ k, s.ccIndex.lookup k ≠ some ∅) → ∀ key k,
      (step s key).ccIndex.lookup k ≠ some ∅)
    (h : ∀ key, s.ccIndex.lookup key ≠ some ∅) (keys : List CcKey) (k : CcKey) :
    (keys.foldl step s).ccIndex.lookup k ≠ some ∅ := by
  induction keys generalizing s with
  | nil => exact h k
  | cons key rest ih =>
      rw [List.foldl_cons]
      exact ih (hstep s h key)

theorem Mirror.congr (h : Mirror s) (hindex : s'.ccIndex = s.ccIndex)
    (hreverse : s'.ccReverse = s.ccReverse) : Mirror s' where
  mirrored id key := by
    have hmirrored := h.mirrored id key
    unfold OrchestratorState.indexed OrchestratorState.listed at hmirrored ⊢
    rw [hindex, hreverse]
    exact hmirrored
  indexFilled key := by
    rw [hindex]
    exact h.indexFilled key
  reverseFilled id := by
    rw [hreverse]
    exact h.reverseFilled id

/-- Entering an invocation under some keys, and listing them. -/
theorem Mirror.enter (h : Mirror s) (id : InvocationId) {triples : List CcKey}
    (htriples : triples ≠ []) :
    Mirror { (triples.foldl (fun s key => s.indexUnder id key) s) with
      ccReverse := s.ccReverse.insert id (s.listed id ++ triples) } where
  mirrored x key := by
    have hindexed := OrchestratorState.mem_indexed_foldl_indexUnder id x triples key s
    have hlisted : key ∈ ((s.ccReverse.insert id (s.listed id ++ triples)).lookup x).getD [] ↔
        key ∈ s.listed x ∨ x = id ∧ key ∈ triples := by
      by_cases hx : x = id
      · subst hx
        simp
      · simp [hx, OrchestratorState.listed]
    exact hindexed.trans ((or_congr (h.mirrored x key) Iff.rfl).trans hlisted.symm)
  indexFilled key :=
    indexFilled_foldl (fun _ hfilled key k => indexFilled_indexUnder hfilled id key k)
      h.indexFilled triples key
  reverseFilled x := by
    by_cases hx : x = id
    · subst hx
      simp [htriples]
    · show (s.ccReverse.insert id (s.listed id ++ triples)).lookup x ≠ some []
      rw [AList.lookup_insert_ne hx]
      exact h.reverseFilled x

/-- Taking an invocation out from under everything that is listed for it. -/
theorem Mirror.leave (h : Mirror s) (id : InvocationId) :
    Mirror (s.removeFromConcurrencyIndex id) ∧
      ∀ key, id ∉ (s.removeFromConcurrencyIndex id).indexed key := by
  have hspec := OrchestratorState.remove_spec fun key => (h.mirrored id key).mp
  refine ⟨⟨fun x key => ?_, ?_, ?_⟩, fun key hin => ((hspec id key).1.mp hin).2 rfl⟩
  · exact (hspec x key).1.trans
      ((and_congr (h.mirrored x key) Iff.rfl).trans (hspec x key).2.symm)
  · intro key
    unfold OrchestratorState.removeFromConcurrencyIndex
    split
    · exact h.indexFilled key
    · rename_i triples _
      have hfilled : ∀ k, { s with ccReverse := s.ccReverse.erase id }.ccIndex.lookup k ≠ some ∅ :=
        h.indexFilled
      exact indexFilled_foldl (fun _ hfilled key k => indexFilled_unindexUnder hfilled id key k)
        hfilled triples key
  · intro x
    rw [OrchestratorState.lookup_ccReverse_remove]
    split
    · exact nofun
    · exact h.reverseFilled x

theorem Mirror.indexed (h : Mirror s) (id : InvocationId) (taskId : TaskId)
    (ccArgs : Option SerializedArguments) : Mirror (s.indexForConcurrencyControl id taskId ccArgs) := by
  unfold OrchestratorState.indexForConcurrencyControl
  dsimp only
  generalize htriples : ((ccArgs.map SerializedArguments.ccArgPairs).getD []).map
    (fun pair => (taskId, pair.1, pair.2)) = triples
  cases triples with
  | nil => exact h
  | cons first rest =>
      obtain ⟨ccIndex, heq⟩ := s.foldl_indexUnder_eq id (first :: rest)
      refine (h.enter id (List.cons_ne_nil first rest)).congr rfl ?_
      simp only [heq]
      rfl

theorem Mirror.acquired (h : Mirror s) (id : InvocationId) (taskId : TaskId) (config : TaskConfig)
    (ccArgs : Option SerializedArguments) :
    Mirror (s.tryAcquireConcurrencySlot id taskId config ccArgs).2 := by
  unfold OrchestratorState.tryAcquireConcurrencySlot
  dsimp only
  split
  · exact h
  · split
    · exact h
    · have htriples : ((ccArgs.getD .empty).ccArgPairs.map fun pair =>
          ((taskId, pair.1, pair.2) : CcKey)) ≠ [] := by
        rw [ne_eq, List.map_eq_nil_iff]
        exact SerializedArguments.ccArgPairs_ne_nil _
      obtain ⟨ccIndex, heq⟩ := s.foldl_indexUnder_eq id
        ((ccArgs.getD .empty).ccArgPairs.map fun pair => (taskId, pair.1, pair.2))
      refine (h.enter id htriples).congr rfl ?_
      simp only [heq]
      rfl

/-- A status write changes the maps only where it is accepted and terminal. -/
theorem setInvocationStatus_maps (s : OrchestratorState) (now : Timestamp) (id : InvocationId)
    (status : InvocationStatus) (runnerId : Option RunnerId) :
    ((∃ record, (s.setInvocationStatus now id status runnerId).1 = .ok record) ∧
      status.isTerminal = true ∧ ∃ s' : OrchestratorState,
        s'.ccIndex = s.ccIndex ∧ s'.ccReverse = s.ccReverse ∧
        (s.setInvocationStatus now id status runnerId).2 = s'.removeFromConcurrencyIndex id) ∨
    (¬ ((∃ record, (s.setInvocationStatus now id status runnerId).1 = .ok record) ∧
        status.isTerminal = true) ∧
      (s.setInvocationStatus now id status runnerId).2.ccIndex = s.ccIndex ∧
      (s.setInvocationStatus now id status runnerId).2.ccReverse = s.ccReverse) := by
  unfold OrchestratorState.setInvocationStatus
  split
  · exact .inr ⟨by simp, rfl, rfl⟩
  · split
    · exact .inr ⟨by simp, rfl, rfl⟩
    · rename_i record _
      by_cases hterminal : status.isTerminal = true
      · exact .inl ⟨⟨record, rfl⟩, hterminal,
          { s with statusRecords := s.statusRecords.insert id record }, rfl, rfl,
          by simp [hterminal]⟩
      · exact .inr ⟨fun hboth => hterminal hboth.2, by simp [hterminal]⟩

/-- Removing an invocation takes it out of the maps; records and waiting do not matter. -/
theorem removeInvocation_maps (s : OrchestratorState) (id : InvocationId) :
    ∃ s' : OrchestratorState, s'.ccIndex = s.ccIndex ∧ s'.ccReverse = s.ccReverse ∧
      (Backends.removeInvocation s id).ccIndex = (s'.removeFromConcurrencyIndex id).ccIndex ∧
      (Backends.removeInvocation s id).ccReverse =
        (s'.removeFromConcurrencyIndex id).ccReverse :=
  ⟨{ s with
      statusRecords := s.statusRecords.erase id
      retries := s.retries.erase id
      taskInvocations := s.taskInvocations.keys.foldl
        (fun tasks key => tasks.insert key (((tasks.lookup key).getD ∅).erase id))
        s.taskInvocations }, rfl, rfl, rfl, rfl⟩

end Entries

namespace IndexCall

variable {s : OrchestratorState}

/-- **One call.**  The maps stay mirror images. -/
theorem mirror_apply (h : Mirror s) (call : IndexCall) : Mirror (call.apply s) := by
  cases call with
  | registerInvocationWithId now id call runnerId => exact h.congr rfl rfl
  | indexForConcurrencyControl id taskId ccArgs => exact h.indexed id taskId ccArgs
  | tryAcquireConcurrencySlot id taskId config ccArgs => exact h.acquired id taskId config ccArgs
  | removeFromConcurrencyIndex id => exact (h.leave id).1
  | setInvocationStatus now id status runnerId =>
      rcases setInvocationStatus_maps s now id status runnerId with
        ⟨-, -, s', hindex, hreverse, heq⟩ | ⟨-, hindex, hreverse⟩
      · show Mirror (s.setInvocationStatus now id status runnerId).2
        rw [heq]
        exact ((h.congr hindex hreverse).leave id).1
      · exact h.congr hindex hreverse
  | removeInvocation id =>
      obtain ⟨s', hindex, hreverse, hindexOut, hreverseOut⟩ := removeInvocation_maps s id
      exact ((h.congr hindex hreverse).leave id).1.congr hindexOut hreverseOut
  | purge => exact ⟨fun _ _ => by simp [apply, Backends.purgeAll, OrchestratorState.indexed,
      OrchestratorState.listed], fun _ => nofun, fun _ => nofun⟩

/-- A call that clears an invocation leaves it under no key. -/
theorem not_mem_indexed_of_clears (h : Mirror s) {call : IndexCall} {id : InvocationId}
    (hclears : call.Clears s id) (key : CcKey) : id ∉ (call.apply s).indexed key := by
  cases call with
  | registerInvocationWithId now x call runnerId => exact hclears.elim
  | indexForConcurrencyControl x taskId ccArgs => exact hclears.elim
  | tryAcquireConcurrencySlot x taskId config ccArgs => exact hclears.elim
  | removeFromConcurrencyIndex x =>
      obtain rfl : x = id := hclears
      exact (h.leave x).2 key
  | setInvocationStatus now x status runnerId =>
      obtain ⟨rfl, hterminal, haccepted⟩ := hclears
      rcases setInvocationStatus_maps s now x status runnerId with
        ⟨-, -, s', hindex, hreverse, heq⟩ | ⟨hnot, -, -⟩
      · show x ∉ (s.setInvocationStatus now x status runnerId).2.indexed key
        rw [heq]
        exact ((h.congr hindex hreverse).leave x).2 key
      · exact absurd ⟨haccepted, hterminal⟩ hnot
  | removeInvocation x =>
      obtain rfl : x = id := hclears
      obtain ⟨s', hindex, hreverse, hindexOut, -⟩ := removeInvocation_maps s x
      have hout := ((h.congr hindex hreverse).leave x).2 key
      unfold OrchestratorState.indexed at hout ⊢
      rwa [← hindexOut] at hout
  | purge => exact fun hin => by cases hin

theorem mirror_stateAfter (calls : List IndexCall) : Mirror (stateAfter calls) := by
  have hrun : ∀ (calls : List IndexCall) (s : OrchestratorState), Mirror s →
      Mirror (calls.foldl apply s) := by
    intro calls
    induction calls with
    | nil => exact fun _ h => h
    | cons call rest ih => exact fun s h => ih _ (mirror_apply h call)
  exact hrun calls {} ⟨fun _ _ => by simp [OrchestratorState.indexed, OrchestratorState.listed],
    fun _ => nofun, fun _ => nofun⟩

/-- **Mirror images.**  After any sequence of calls an invocation is in the set of a key exactly
when the key is listed for it, no set and no list is empty, and a call that clears an invocation
leaves it in no set and without a list. -/
theorem concurrencyIndex_mirrored (calls : List IndexCall) :
    Mirror (stateAfter calls) ∧
    ∀ (call : IndexCall) (id : InvocationId), call.Clears (stateAfter calls) id →
      (∀ key, id ∉ (stateAfter (calls ++ [call])).indexed key) ∧
        (stateAfter (calls ++ [call])).ccReverse.lookup id = none := by
  refine ⟨mirror_stateAfter calls, fun call id hclears => ?_⟩
  have hsnoc : stateAfter (calls ++ [call]) = call.apply (stateAfter calls) := by
    unfold stateAfter
    rw [List.foldl_append]
    rfl
  rw [hsnoc]
  have hout := not_mem_indexed_of_clears (mirror_stateAfter calls) hclears
  refine ⟨hout, ?_⟩
  have hmirror := mirror_apply (mirror_stateAfter calls) call
  cases hlookup : (call.apply (stateAfter calls)).ccReverse.lookup id with
  | none => rfl
  | some triples =>
      cases triples with
      | nil => exact absurd hlookup (hmirror.reverseFilled id)
      | cons key rest =>
          refine absurd ((hmirror.mirrored id key).mpr ?_) (hout key)
          unfold OrchestratorState.listed
          rw [hlookup]
          exact List.mem_cons_self

end IndexCall

end Rustvello.Mem
