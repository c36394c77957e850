import Rustvello.Mem.Admission

/-!
# Slots by concurrency key

`try_acquire_concurrency_slot` and `remove_from_concurrency_index` of `MemOrchestrator`, called
in any order for invocations that always ask with their own key.  The key is not stored as a
whole: the index holds an invocation under each of its pairs, and admission intersects the sets
of the pairs that are asked for.

* `SlotBook` — the orchestrator, and who has been granted a slot since its last release;
* `Booked` — index and reverse map hold exactly the pairs of these invocations;
* `sharing`, `including` — the other holders with the same key, and those whose key has all
  pairs of it;
* `granted_iff` — admission counts the latter;
* `exclusion_exact_iff` — it is exact unless these fill the limit and the former do not.
-/

namespace Rustvello.Mem

open Proto Rustvello.Core

namespace OrchestratorState

section Calls

variable {s : OrchestratorState} {id : InvocationId} {taskId : TaskId} {config : TaskConfig}
  {ccArgs : Option SerializedArguments}

theorem tryAcquire_denied (h : (s.tryAcquireConcurrencySlot id taskId config ccArgs).1 = false) :
    (s.tryAcquireConcurrencySlot id taskId config ccArgs).2 = s := by
  unfold tryAcquireConcurrencySlot at h ⊢
  split at h
  · cases h
  · rename_i hlimited
    dsimp only at h ⊢
    rw [if_neg hlimited]
    split at h
    · rename_i hfull
      rw [if_pos hfull]
    · cases h

/-- A granted slot is entered under every pair, in the index and in the reverse map. -/
theorem tryAcquire_granted (hlimited : config.concurrencyControl ≠ .unlimited)
    (h : (s.tryAcquireConcurrencySlot id taskId config ccArgs).1 = true)
    {triples : List CcKey} (htriples : triples =
      (ccArgs.getD .empty).ccArgPairs.map fun pair => (taskId, pair.1, pair.2))
    (x : InvocationId) (key : CcKey) :
    (x ∈ (s.tryAcquireConcurrencySlot id taskId config ccArgs).2.indexed key ↔
      x ∈ s.indexed key ∨ x = id ∧ key ∈ triples) ∧
    (key ∈ ((s.tryAcquireConcurrencySlot id taskId config ccArgs).2.ccReverse.lookup x).getD [] ↔
      key ∈ (s.ccReverse.lookup x).getD [] ∨ x = id ∧ key ∈ triples) := by
  unfold tryAcquireConcurrencySlot at h ⊢
  rw [if_neg hlimited] at h ⊢
  dsimp only at h ⊢
  rw [← htriples]
  split at h
  · cases h
  · rename_i hfree
    rw [if_neg hfree]
    obtain ⟨ccIndex, heq⟩ := s.foldl_indexUnder_eq id triples
    constructor
    · exact mem_indexed_foldl_indexUnder id x triples key s
    · rw [heq]
      by_cases hx : x = id
      · subst hx
        simp
      · simp [hx]

/-- Leaving the index takes back everything that the reverse map lists. -/
theorem remove_spec (hreverse : ∀ key, id ∈ s.indexed key → key ∈ (s.ccReverse.lookup id).getD [])
    (x : InvocationId) (key : CcKey) :
    (x ∈ (s.removeFromConcurrencyIndex id).indexed key ↔ x ∈ s.indexed key ∧ x ≠ id) ∧
    (key ∈ ((s.removeFromConcurrencyIndex id).ccReverse.lookup x).getD [] ↔
      key ∈ (s.ccReverse.lookup x).getD [] ∧ x ≠ id) := by
  constructor
  · have hin : x ∈ s.indexed key → x = id → key ∈ (s.ccReverse.lookup id).getD [] := by
      rintro hx rfl
      exact hreverse key hx
    unfold removeFromConcurrencyIndex
    split
    · rename_i hnone
      refine ⟨fun hx => ⟨hx, fun hid => ?_⟩, fun hx => hx.1⟩
      have hkey := hin hx hid
      rw [hnone] at hkey
      exact List.not_mem_nil hkey
    · rename_i triples htriples
      rw [mem_indexed_foldl_unindexUnder]
      constructor
      · rintro ⟨hx, hnot⟩
        refine ⟨hx, fun hid => hnot ⟨hid, ?_⟩⟩
        have hkey := hin hx hid
        rw [htriples] at hkey
        exact hkey
      · rintro ⟨hx, hne⟩
        exact ⟨hx, fun hout => hne hout.1⟩
  · rw [lookup_ccReverse_remove]
    by_cases hx : x = id
    · simp [hx]
    · simp [hx]

end Calls

end OrchestratorState

/-- An invocation asks for its slot, or leaves the index. -/
inductive KeyCall where
  | acquire (id : InvocationId)
  | remove (id : InvocationId)
deriving DecidableEq

structure SlotBook where
  state : OrchestratorState := {}
  /-- Who was granted a slot and has not been removed since. -/
  held : Finset InvocationId := ∅

section Keys

-- the call of each invocation, and the configuration of each task
variable (calls : InvocationId → CallDTO) (configs : TaskId → TaskConfig)

/-- The configuration an invocation runs under. -/
def configOf (id : InvocationId) : TaskConfig :=
  configs (calls id).taskId

/-- The key with which an invocation asks for its slot. -/
def ownKey (id : InvocationId) : Option SerializedArguments :=
  concurrencyArguments (configOf calls configs id).concurrencyControl
    (configOf calls configs id).keyArguments (calls id).serializedArguments

/-- The pairs of the key. -/
def ownPairs (id : InvocationId) : List (String × String) :=
  ((ownKey calls configs id).getD .empty).ccArgPairs

/-- The keys of the index under which the invocation is entered. -/
def ownTriples (id : InvocationId) : List CcKey :=
  (ownPairs calls configs id).map fun pair => ((calls id).taskId, pair.1, pair.2)

/-- The answer of `try_acquire_concurrency_slot`. -/
def granted (b : SlotBook) (id : InvocationId) : Bool :=
  (b.state.tryAcquireConcurrencySlot id (calls id).taskId (configOf calls configs id)
    (ownKey calls configs id)).1

def KeyCall.apply (b : SlotBook) : KeyCall → SlotBook
  | acquire id =>
      { state := (b.state.tryAcquireConcurrencySlot id (calls id).taskId (configOf calls configs id)
          (ownKey calls configs id)).2
        held := if granted calls configs b id then insert id b.held else b.held }
  | remove id =>
      { state := b.state.removeFromConcurrencyIndex id
        held := b.held.erase id }

/-- After a sequence of calls on a fresh orchestrator. -/
def bookAfter (ops : List KeyCall) : SlotBook :=
  ops.foldl (KeyCall.apply calls configs) {}

/-- The other holders of the task with exactly the same key. -/
def sharing (b : SlotBook) (id : InvocationId) : Finset InvocationId :=
  b.held.filter fun x => x ≠ id ∧ (calls x).taskId = (calls id).taskId ∧
    ownKey calls configs x = ownKey calls configs id

/-- The other holders of the task whose key has every pair of this one. -/
def including (b : SlotBook) (id : InvocationId) : Finset InvocationId :=
  b.held.filter fun x => x ≠ id ∧ (calls x).taskId = (calls id).taskId ∧
    ∀ pair ∈ ownPairs calls configs id, pair ∈ ownPairs calls configs x

/-- Larger keys do not fill the limit where the key itself does not. -/
def Separated (b : SlotBook) (id : InvocationId) : Prop :=
  (sharing calls configs b id).card < (configOf calls configs id).limit →
    (including calls configs b id).card < (configOf calls configs id).limit

instance (b : SlotBook) (id : InvocationId) : Decidable (Separated calls configs b id) :=
  inferInstanceAs (Decidable (_ → _))

/-- Both are granted their slots, asking in this order. -/
def together (b : SlotBook) (x y : InvocationId) : Bool :=
  granted calls configs b x &&
    granted calls configs (KeyCall.apply calls configs b (.acquire x)) y

/-! ## The index -/

/-- The task of the invocation is limited. -/
def Limited (id : InvocationId) : Prop :=
  (configOf calls configs id).concurrencyControl ≠ .unlimited

instance (id : InvocationId) : Decidable (Limited calls configs id) :=
  inferInstanceAs (Decidable (_ ≠ _))

/-- Index and reverse map hold the pairs of the holders and nothing else. -/
structure Booked (b : SlotBook) : Prop where
  index : ∀ x key, x ∈ b.state.indexed key ↔
    x ∈ b.held ∧ Limited calls configs x ∧ key ∈ ownTriples calls configs x
  reverse : ∀ x key, key ∈ (b.state.ccReverse.lookup x).getD [] ↔
    x ∈ b.held ∧ Limited calls configs x ∧ key ∈ ownTriples calls configs x

variable {calls configs}

/-- A granted slot of a limited task enters the index under every pair of the key. -/
theorem Booked.acquire {b : SlotBook} (h : Booked calls configs b) (id : InvocationId) :
    Booked calls configs (KeyCall.apply calls configs b (.acquire id)) := by
  cases hgranted : granted calls configs b id with
  | false =>
      have hsame : KeyCall.apply calls configs b (.acquire id) = b := by
        simp only [KeyCall.apply, hgranted]
        rw [OrchestratorState.tryAcquire_denied hgranted]
        rfl
      rw [hsame]
      exact h
  | true =>
      have hheld : (KeyCall.apply calls configs b (.acquire id)).held = insert id b.held := by
        simp only [KeyCall.apply, hgranted, if_true]
      by_cases hlimited : Limited calls configs id
      · have htriples : ownTriples calls configs id =
            ((ownKey calls configs id).getD .empty).ccArgPairs.map fun pair =>
              ((calls id).taskId, pair.1, pair.2) := rfl
        have hspec := OrchestratorState.tryAcquire_granted hlimited hgranted htriples
        constructor
        · intro x key
          rw [hheld, Finset.mem_insert]
          refine (hspec x key).1.trans ?_
          rw [h.index]
          by_cases hx : x = id
          · subst hx
            tauto
          · tauto
        · intro x key
          rw [hheld, Finset.mem_insert]
          refine (hspec x key).2.trans ?_
          rw [h.reverse]
          by_cases hx : x = id
          · subst hx
            tauto
          · tauto
      · -- an unlimited task takes no slot
        have hstate : (KeyCall.apply calls configs b (.acquire id)).state = b.state := by
          simp only [KeyCall.apply, OrchestratorState.tryAcquireConcurrencySlot,
            if_pos (not_not.mp hlimited)]
        have hsame : ∀ (x : InvocationId) (key : CcKey),
            (x ∈ b.held ∧ Limited calls configs x ∧ key ∈ ownTriples calls configs x ↔
              x ∈ insert id b.held ∧ Limited calls configs x ∧
                key ∈ ownTriples calls configs x) := by
          intro x key
          rw [Finset.mem_insert]
          by_cases hx : x = id
          · subst hx
            tauto
          · tauto
        constructor
        · intro x key
          rw [hheld, hstate, h.index]
          exact hsame x key
        · intro x key
          rw [hheld, hstate, h.reverse]
          exact hsame x key

theorem Booked.remove {b : SlotBook} (h : Booked calls configs b) (id : InvocationId) :
    Booked calls configs (KeyCall.apply calls configs b (.remove id)) := by
  have hreverse : ∀ key, id ∈ b.state.indexed key →
      key ∈ (b.state.ccReverse.lookup id).getD [] :=
    fun key hkey => (h.reverse id key).mpr ((h.index id key).mp hkey)
  have hspec := OrchestratorState.remove_spec hreverse
  constructor
  · intro x key
    show x ∈ (b.state.removeFromConcurrencyIndex id).indexed key ↔ x ∈ b.held.erase id ∧ _
    rw [(hspec x key).1, h.index, Finset.mem_erase]
    tauto
  · intro x key
    show key ∈ ((b.state.removeFromConcurrencyIndex id).ccReverse.lookup x).getD [] ↔
      x ∈ b.held.erase id ∧ _
    rw [(hspec x key).2, h.reverse, Finset.mem_erase]
    tauto

theorem booked_bookAfter (ops : List KeyCall) : Booked calls configs (bookAfter calls configs ops) := by
  have hfold : ∀ (ops : List KeyCall) (b : SlotBook), Booked calls configs b →
      Booked calls configs (ops.foldl (KeyCall.apply calls configs) b) := by
    intro ops
    induction ops with
    | nil => exact fun b h => h
    | cons op rest ih =>
        intro b h
        cases op with
        | acquire id => exact ih _ (h.acquire id)
        | remove id => exact ih _ (h.remove id)
  refine hfold ops {} ⟨fun x key => ?_, fun x key => ?_⟩
  · simp [OrchestratorState.indexed]
  · simp

/-! ## Admission -/

section Admission

variable {b : SlotBook} {id : InvocationId}

theorem sharing_subset_including :
    sharing calls configs b id ⊆ including calls configs b id := by
  intro x hx
  obtain ⟨hheld, hne, htask, hkey⟩ := Finset.mem_filter.mp hx
  refine Finset.mem_filter.mpr ⟨hheld, hne, htask, ?_⟩
  unfold ownPairs
  rw [hkey]
  exact fun pair hpair => hpair

/-- **What admission counts**: the other holders whose key has every pair of this one. -/
theorem granted_iff (h : Booked calls configs b) (hlimited : Limited calls configs id) :
    granted calls configs b id = true ↔
      (including calls configs b id).card < (configOf calls configs id).limit := by
  have hmode : concurrencyArguments (configOf calls configs id).concurrencyControl
      (configOf calls configs id).keyArguments (calls id).serializedArguments ≠ none := by
    unfold concurrencyArguments
    split
    · rename_i hunlimited
      exact absurd hunlimited hlimited
    · simp
    · split <;> simp
    · simp
  obtain ⟨key, hkey⟩ := Option.ne_none_iff_exists'.mp hmode
  have hown : ownKey calls configs id = some key := hkey
  have hcounted : indexedOthers calls b.state id key = including calls configs b id := by
    ext x
    rw [mem_indexedOthers]
    constructor
    · rintro ⟨hne, hpairs⟩
      have hentry : ∀ pair ∈ key.ccArgPairs, x ∈ b.held ∧
          (calls x).taskId = (calls id).taskId ∧ pair ∈ ownPairs calls configs x := by
        intro pair hpair
        obtain ⟨hheld, -, htriple⟩ := (h.index x _).mp (hpairs pair hpair)
        obtain ⟨pair', hpair', heq⟩ := List.mem_map.mp htriple
        simp only [Prod.mk.injEq] at heq
        obtain ⟨htask, hname, hvalue⟩ := heq
        exact ⟨hheld, htask, Prod.ext hname hvalue ▸ hpair'⟩
      obtain ⟨pair, hpair⟩ := List.exists_mem_of_ne_nil _ key.ccArgPairs_ne_nil
      obtain ⟨hheld, htask, -⟩ := hentry pair hpair
      refine Finset.mem_filter.mpr ⟨hheld, hne, htask, ?_⟩
      intro pair hpair
      rw [ownPairs, hown] at hpair
      exact (hentry pair hpair).2.2
    · intro hx
      obtain ⟨hheld, hne, htask, hpairs⟩ := Finset.mem_filter.mp hx
      refine ⟨hne, fun pair hpair => (h.index x _).mpr ⟨hheld, ?_, ?_⟩⟩
      · unfold Limited configOf
        rw [htask]
        exact hlimited
      · rw [← htask]
        refine List.mem_map.mpr ⟨pair, hpairs pair ?_, rfl⟩
        rw [ownPairs, hown]
        exact hpair
  rw [← hcounted, granted, hown]
  exact tryAcquire_iff hlimited

/-- Admission is exact where larger keys do not decide it. -/
theorem granted_exact_iff (h : Booked calls configs b) (hlimited : Limited calls configs id) :
    (granted calls configs b id = true ↔
        (sharing calls configs b id).card < (configOf calls configs id).limit) ↔
      Separated calls configs b id := by
  have hle : (sharing calls configs b id).card ≤ (including calls configs b id).card :=
    Finset.card_le_card sharing_subset_including
  rw [granted_iff h hlimited]
  unfold Separated
  constructor
  · exact fun hexact => hexact.mpr
  · exact fun hseparated => ⟨fun hfew => Nat.lt_of_le_of_lt hle hfew, hseparated⟩

theorem held_acquire (h : granted calls configs b id = true) :
    (KeyCall.apply calls configs b (.acquire id)).held = insert id b.held := by
  simp only [KeyCall.apply, h, if_true]

/-- Two invocations with one key see equally many holders after the other one's turn. -/
theorem card_sharing_swap {b₁ b₂ : SlotBook} {x y : InvocationId}
    (htask : (calls x).taskId = (calls y).taskId)
    (hkey : ownKey calls configs x = ownKey calls configs y)
    (h₁ : b₁.held = insert x b.held) (h₂ : b₂.held = insert y b.held) :
    (sharing calls configs b₁ y).card = (sharing calls configs b₂ x).card := by
  let family : Finset InvocationId := (insert x (insert y b.held)).filter fun z =>
    (calls z).taskId = (calls x).taskId ∧ ownKey calls configs z = ownKey calls configs x
  have hx : x ∈ family := by simp [family]
  have hy : y ∈ family := by simp [family, htask, hkey]
  have hsharing₁ : sharing calls configs b₁ y = family.erase y := by
    ext z
    simp only [sharing, family, Finset.mem_filter, Finset.mem_erase, Finset.mem_insert, h₁, htask,
      hkey]
    tauto
  have hsharing₂ : sharing calls configs b₂ x = family.erase x := by
    ext z
    simp only [sharing, family, Finset.mem_filter, Finset.mem_erase, Finset.mem_insert, h₂]
    tauto
  rw [hsharing₁, hsharing₂, Finset.card_erase_of_mem hx, Finset.card_erase_of_mem hy]

/-- Asking in the other order is granted as well. -/
theorem together_swap (h : Booked calls configs b) {x y : InvocationId}
    (hx : Limited calls configs x) (hy : Limited calls configs y)
    (hfirst : Separated calls configs b x) (hsecond : Separated calls configs b y)
    (hafterFirst : Separated calls configs (KeyCall.apply calls configs b (.acquire x)) y)
    (hafterSecond : Separated calls configs (KeyCall.apply calls configs b (.acquire y)) x)
    (hboth : together calls configs b x y = true) : together calls configs b y x = true := by
  by_cases hne : x = y
  · subst hne
    exact hboth
  obtain ⟨hgrantedx, hgrantedy⟩ := Bool.and_eq_true_iff.mp hboth
  have hroomx := ((granted_exact_iff h hx).mpr hfirst).mp hgrantedx
  have hroomy := ((granted_exact_iff (h.acquire x) hy).mpr hafterFirst).mp hgrantedy
  have hmore : sharing calls configs b y ⊆
      sharing calls configs (KeyCall.apply calls configs b (.acquire x)) y := by
    intro z hz
    obtain ⟨hheld, hrest⟩ := Finset.mem_filter.mp hz
    refine Finset.mem_filter.mpr ⟨?_, hrest⟩
    rw [held_acquire hgrantedx]
    exact Finset.mem_insert_of_mem hheld
  have hgrantedy' : granted calls configs b y = true :=
    ((granted_exact_iff h hy).mpr hsecond).mpr
      (Nat.lt_of_le_of_lt (Finset.card_le_card hmore) hroomy)
  have hgrantedx' : granted calls configs (KeyCall.apply calls configs b (.acquire y)) x = true := by
    refine ((granted_exact_iff (h.acquire y) hx).mpr hafterSecond).mpr ?_
    by_cases hsame : (calls x).taskId = (calls y).taskId ∧
        ownKey calls configs x = ownKey calls configs y
    · rw [← card_sharing_swap hsame.1 hsame.2 (held_acquire hgrantedx)
        (held_acquire hgrantedy')]
      have hconfig : configOf calls configs x = configOf calls configs y := by
        unfold configOf
        rw [hsame.1]
      rw [hconfig]
      exact hroomy
    · -- `y` does not count for `x`
      have hold : sharing calls configs (KeyCall.apply calls configs b (.acquire y)) x ⊆
          sharing calls configs b x := by
        intro z hz
        obtain ⟨hheld, hother, htask, hkey⟩ := Finset.mem_filter.mp hz
        rw [held_acquire hgrantedy', Finset.mem_insert] at hheld
        rcases hheld with rfl | hheld
        · exact absurd ⟨htask.symm, hkey.symm⟩ hsame
        · exact Finset.mem_filter.mpr ⟨hheld, hother, htask, hkey⟩
      exact Nat.lt_of_le_of_lt (Finset.card_le_card hold) hroomx
  exact Bool.and_eq_true_iff.mpr ⟨hgrantedy', hgrantedx'⟩

end Admission

/-- **Exclusion by key.**  After any sequence of calls, a limited task's invocation is granted
its slot exactly when fewer than the limit of the others hold one under exactly its key, if and
only if the holders whose key has all of its pairs do not fill the limit where those do not.
Where that is so whichever of two invocations asks first, the order in which they ask does not
decide whether both hold slots. -/
theorem exclusion_exact_iff (calls : InvocationId → CallDTO) (configs : TaskId → TaskConfig)
    (ops : List KeyCall) {x : InvocationId} (hx : Limited calls configs x) :
    ((granted calls configs (bookAfter calls configs ops) x = true ↔
        (sharing calls configs (bookAfter calls configs ops) x).card <
          (configOf calls configs x).limit) ↔
      Separated calls configs (bookAfter calls configs ops) x) ∧
    ∀ y, Limited calls configs y →
      Separated calls configs (bookAfter calls configs ops) x →
      Separated calls configs (bookAfter calls configs ops) y →
      Separated calls configs (bookAfter calls configs (ops ++ [.acquire x])) y →
      Separated calls configs (bookAfter calls configs (ops ++ [.acquire y])) x →
      together calls configs (bookAfter calls configs ops) x y =
        together calls configs (bookAfter calls configs ops) y x := by
  have hkept : Booked calls configs (bookAfter calls configs ops) := booked_bookAfter ops
  have hsnoc : ∀ id, bookAfter calls configs (ops ++ [.acquire id]) =
      KeyCall.apply calls configs (bookAfter calls configs ops) (.acquire id) := by
    intro id
    unfold bookAfter
    rw [List.foldl_append]
    rfl
  refine ⟨granted_exact_iff hkept hx, fun y hy hfirst hsecond hafterFirst hafterSecond => ?_⟩
  rw [hsnoc] at hafterFirst hafterSecond
  rw [Bool.eq_iff_iff]
  constructor
  · exact together_swap hkept hx hy hfirst hsecond hafterFirst hafterSecond
  · exact together_swap hkept hy hx hsecond hfirst hafterSecond hafterFirst

end Keys

/-- Every call of the task is limited to one at a time per exact argument set. -/
def exclusiveConfig : TaskId → TaskConfig :=
  fun _ => { concurrencyControl := .argument }

/-- `narrow` and `twin` have one argument, `wide` has another one besides. -/
def overlappingCalls : InvocationId → CallDTO
  | ⟨name⟩ =>
      let arguments := SerializedArguments.empty.insert "customer" "7"
      ⟨⟨⟨.rust, "shop", "bill"⟩, name⟩, ⟨.rust, "shop", "bill"⟩,
        if name = "wide" then arguments.insert "order" "1" else arguments⟩

/-- While `twin` holds its slot, `narrow` has to wait, and so it is the other way round. -/
theorem exclusion_exact_twin :
    granted overlappingCalls exclusiveConfig
        (bookAfter overlappingCalls exclusiveConfig [.acquire ⟨"twin"⟩]) ⟨"narrow"⟩ = false ∧
      together overlappingCalls exclusiveConfig {} ⟨"narrow"⟩ ⟨"twin"⟩ =
        together overlappingCalls exclusiveConfig {} ⟨"twin"⟩ ⟨"narrow"⟩ := by
  have hnarrow : Limited overlappingCalls exclusiveConfig ⟨"narrow"⟩ := by decide
  have htwin : Limited overlappingCalls exclusiveConfig ⟨"twin"⟩ := by decide
  obtain ⟨hexact, -⟩ := exclusion_exact_iff overlappingCalls exclusiveConfig
    [.acquire ⟨"twin"⟩] hnarrow
  obtain ⟨-, horder⟩ := exclusion_exact_iff overlappingCalls exclusiveConfig [] hnarrow
  constructor
  · have hiff := hexact.mpr (by decide +kernel)
    rw [Bool.eq_false_iff, ne_eq, hiff]
    decide +kernel
  · exact horder ⟨"twin"⟩ htwin (by decide +kernel) (by decide +kernel) (by decide +kernel)
      (by decide +kernel)

/-- `wide` holds a slot, nobody holds one under the key of `narrow`, and `narrow` is refused.
Asking first, `narrow` is granted its slot, and so is `wide` after it. -/
theorem narrow_key_refused :
    ¬ (granted overlappingCalls exclusiveConfig
        (bookAfter overlappingCalls exclusiveConfig [.acquire ⟨"wide"⟩]) ⟨"narrow"⟩ = true ↔
      (sharing overlappingCalls exclusiveConfig
          (bookAfter overlappingCalls exclusiveConfig [.acquire ⟨"wide"⟩]) ⟨"narrow"⟩).card <
        (configOf overlappingCalls exclusiveConfig ⟨"narrow"⟩).limit) ∧
    together overlappingCalls exclusiveConfig {} ⟨"narrow"⟩ ⟨"wide"⟩ = true ∧
    together overlappingCalls exclusiveConfig {} ⟨"wide"⟩ ⟨"narrow"⟩ = false := by
  decide +kernel

end Rustvello.Mem
