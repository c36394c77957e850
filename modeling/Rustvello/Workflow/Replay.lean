import Rustvello.Workflow.Books

/-!
# Deterministic replay

What the executions of one workflow agree on.  Values are never deleted, so what the book
of an execution says stays true; random numbers and UUIDs have only one text, and timestamps
keep theirs as long as executions do not overlap.

* `Replayed` — the invariant: what is stored for the workflow, and what the books say;
* `Anchored` — all timestamps count from one base time, when executions do not overlap;
* `deterministic_replay` — the executions of a workflow got the same values.
-/

namespace Rustvello.Workflow

open Concurrency Proto Rustvello.Core DeterministicExecutor

/-! ## The invariant -/

/-- What is stored for the workflow: texts that fit, the values of each operation from 1 to
`counts` and no others, and counters that show no more. -/
structure Shelf (lib : Library) (workflow : InvocationId) (counts : Operation → Nat)
    (data : WorkflowData) : Prop where
  fits : ∀ key text, stored data workflow key = some text → Fits lib workflow key text
  filled : ∀ operation n, (stored data workflow (.value operation n)).isSome ↔
    1 ≤ n ∧ n ≤ counts operation
  counter : ∀ operation, storedCounter data workflow operation ≤ counts operation

/-- What the book of an execution says about the shelf.  The values of an operation that is
kept are still the stored ones. -/
structure Knows (workflow : InvocationId) (keeps : Operation → Prop) (counts : Operation → Nat)
    (data : WorkflowData) (book : Progress) : Prop where
  length : ∀ operation, (book.values operation).length ≤ counts operation
  total : ∀ operation, book.total operation ≤ counts operation
  kept : ∀ operation, keeps operation → ∀ n text, (book.values operation)[n]? = some text →
    stored data workflow (.value operation (n + 1)) = some text

/-- **The invariant of the executions of one workflow.** -/
def Replayed (lib : Library) (workflow : InvocationId) (keeps : Operation → Prop)
    (data : WorkflowData) (books : List Progress) : Prop :=
  ∃ counts, Shelf lib workflow counts data ∧
    ∀ book ∈ books, book.workflow = workflow → Knows workflow keeps counts data book

section Steps

variable {lib : Library} {workflow : InvocationId} {keeps : Operation → Prop}
  {counts : Operation → Nat} {data : WorkflowData} {book : Progress} {operation : Operation}
  {text : String} {n : Nat}

/-- Nothing that is read here was changed. -/
theorem Shelf.of_stored_eq {data' : WorkflowData} (h : Shelf lib workflow counts data)
    (heq : ∀ key, stored data' workflow key = stored data workflow key) :
    Shelf lib workflow counts data' := by
  refine ⟨?_, ?_, ?_⟩
  · intro key text htext
    rw [heq] at htext
    exact h.fits key text htext
  · intro operation n
    rw [heq]
    exact h.filled operation n
  · intro operation
    unfold storedCounter
    rw [heq]
    exact h.counter operation

theorem Knows.of_stored_eq {data' : WorkflowData} (h : Knows workflow keeps counts data book)
    (heq : ∀ operation n, stored data' workflow (.value operation n) =
      stored data workflow (.value operation n)) :
    Knows workflow keeps counts data' book := by
  refine ⟨h.length, h.total, fun operation hkeeps n text htext => ?_⟩
  rw [heq]
  exact h.kept operation hkeeps n text htext

/-- One more value, at the place where it is stored. -/
theorem Knows.gain (h : Knows workflow keeps counts data book)
    (hle : (book.values operation).length + 1 ≤ counts operation)
    (hstored : keeps operation →
      stored data workflow (.value operation ((book.values operation).length + 1)) = some text) :
    Knows workflow keeps counts data (book.gain operation text) := by
  refine ⟨fun operation' => ?_, h.total, fun operation' hkeeps n text' htext' => ?_⟩
  · by_cases heq : operation' = operation
    · subst heq
      simpa [Progress.gain] using hle
    · simpa [Progress.gain, heq] using h.length operation'
  · by_cases heq : operation' = operation
    · subst heq
      simp only [Progress.gain, Function.update_self] at htext'
      rcases Nat.lt_trichotomy n (book.values operation').length with hlt | rfl | hgt
      · rw [List.getElem?_append_left hlt] at htext'
        exact h.kept operation' hkeeps n text' htext'
      · simp only [List.getElem?_concat_length, Option.some.injEq] at htext'
        rw [← htext']
        exact hstored hkeeps
      · rw [List.getElem?_eq_none (by simp; omega)] at htext'
        cases htext'
    · simp only [Progress.gain, Function.update_of_ne heq] at htext'
      exact h.kept operation' hkeeps n text' htext'

/-- An answer is what the shelf has. -/
theorem Knows.noteAnswer (hshelf : Shelf lib workflow counts data)
    (h : Knows workflow keeps counts data book) {key : DataKey}
    (hnext : ∀ operation n, key = .value operation n → n = (book.values operation).length + 1) :
    Knows workflow keeps counts data (book.noteAnswer lib key (stored data workflow key)) := by
  cases key with
  | value operation n =>
      have hn := hnext operation n rfl
      cases hstored : stored data workflow (.value operation n) with
      | none => exact ⟨h.length, h.total, h.kept⟩
      | some text =>
          have hle : n ≤ counts operation := ((hshelf.filled operation n).mp (by simp [hstored])).2
          subst hn
          exact h.gain hle fun _ => hstored
  | counter operation =>
      refine ⟨h.length, fun operation' => ?_, h.kept⟩
      by_cases heq : operation' = operation
      · subst heq
        have hcounter := hshelf.counter operation'
        simpa [Progress.noteAnswer, storedCounter] using hcounter
      · simpa [Progress.noteAnswer, heq] using h.total operation'
  | baseTime =>
      cases stored data workflow .baseTime with
      | none => exact ⟨h.length, h.total, h.kept⟩
      | some text => exact ⟨h.length, h.total, h.kept⟩

/-- How far the shelf is filled after number `n` of an operation. -/
def filledTo (counts : Operation → Nat) (operation : Operation) (n : Nat) : Operation → Nat :=
  Function.update counts operation (max (counts operation) n)

theorem le_filledTo (counts : Operation → Nat) (operation : Operation) (n : Nat)
    (operation' : Operation) : counts operation' ≤ filledTo counts operation n operation' := by
  unfold filledTo
  by_cases heq : operation' = operation
  · subst heq
    simp
  · simp [heq]

/-- Storing the next value, or one that is there already, leaves no gap. -/
theorem Shelf.storeValue (h : Shelf lib workflow counts data) (hpos : 1 ≤ n)
    (hle : n ≤ counts operation + 1) (hfits : Fits lib workflow (.value operation n) text) :
    Shelf lib workflow (filledTo counts operation n)
      (data.insert (workflow, (DataKey.value operation n).text) text) := by
  have hother : ∀ key, key ≠ .value operation n →
      stored (data.insert (workflow, (DataKey.value operation n).text) text) workflow key =
        stored data workflow key := fun key hkey => stored_insert_of_ne (by simpa using hkey)
  refine ⟨?_, ?_, ?_⟩
  · intro key text' htext'
    by_cases hkey : key = .value operation n
    · subst hkey
      rw [stored_insert_self] at htext'
      obtain rfl := Option.some.inj htext'
      exact hfits
    · rw [hother key hkey] at htext'
      exact h.fits key text' htext'
  · intro operation' m
    by_cases hkey : DataKey.value operation' m = .value operation n
    · obtain ⟨rfl, rfl⟩ := DataKey.value.inj hkey
      rw [stored_insert_self]
      simp [filledTo, hpos]
    · rw [hother _ hkey, h.filled]
      by_cases heq : operation' = operation
      · subst heq
        have hne : m ≠ n := fun hmn => hkey (by rw [hmn])
        simp only [filledTo, Function.update_self]
        omega
      · simp [filledTo, heq]
  · intro operation'
    have hcounter : storedCounter (data.insert (workflow, (DataKey.value operation n).text) text)
        workflow operation' = storedCounter data workflow operation' := by
      unfold storedCounter
      rw [hother _ (by simp)]
    rw [hcounter]
    exact (h.counter operation').trans (le_filledTo counts operation n operation')

/-- Other executions keep what they know when a value is stored that was not there, or was
the same. -/
theorem Knows.storeValue (h : Knows workflow keeps counts data book)
    (hkeep : keeps operation → ∀ text', stored data workflow (.value operation n) = some text' →
      text' = text) :
    Knows workflow keeps (filledTo counts operation n)
      (data.insert (workflow, (DataKey.value operation n).text) text) book := by
  refine ⟨fun operation' => ?_, fun operation' => ?_, fun operation' hkeeps m text' htext' => ?_⟩
  · exact (h.length operation').trans (le_filledTo counts operation n operation')
  · exact (h.total operation').trans (le_filledTo counts operation n operation')
  · have hstored := h.kept operation' hkeeps m text' htext'
    by_cases hkey : DataKey.value operation' (m + 1) = .value operation n
    · obtain ⟨rfl, rfl⟩ := DataKey.value.inj hkey
      rw [stored_insert_self, hkeep hkeeps text' hstored]
    · rw [stored_insert_of_ne (by simpa using hkey)]
      exact hstored

/-- A counter may show what the shelf is filled to. -/
theorem Shelf.storeCounter (h : Shelf lib workflow counts data) {m : Nat}
    (hle : m ≤ counts operation) :
    Shelf lib workflow counts
      (data.insert (workflow, (DataKey.counter operation).text) (toString m)) := by
  refine ⟨?_, ?_, ?_⟩
  · intro key text htext
    by_cases hkey : key = .counter operation
    · subst hkey
      trivial
    · rw [stored_insert_of_ne (by simpa using hkey)] at htext
      exact h.fits key text htext
  · intro operation' n
    rw [stored_insert_of_ne (by simp)]
    exact h.filled operation' n
  · intro operation'
    unfold storedCounter
    by_cases heq : operation' = operation
    · subst heq
      rw [stored_insert_self, Option.bind_some]
      cases hparse : parseU64 (toString m) with
      | none => simp
      | some n =>
          rw [parseU64_toString hparse]
          exact hle
    · rw [stored_insert_of_ne (by simpa using heq)]
      exact h.counter operation'

theorem Shelf.storeBaseTime (h : Shelf lib workflow counts data) (t : Timestamp) :
    Shelf lib workflow counts
      (data.insert (workflow, DataKey.baseTime.text) (lib.toRfc3339 t)) := by
  refine ⟨?_, ?_, ?_⟩
  · intro key text htext
    by_cases hkey : key = .baseTime
    · subst hkey
      rw [stored_insert_self] at htext
      exact ⟨t, (Option.some.inj htext).symm⟩
    · rw [stored_insert_of_ne (by simpa using hkey)] at htext
      exact h.fits key text htext
  · intro operation n
    rw [stored_insert_of_ne (by simp)]
    exact h.filled operation n
  · intro operation
    unfold storedCounter
    rw [stored_insert_of_ne (by simp)]
    exact h.counter operation

/-- What an execution generates fits. -/
theorem Generates.fits (h : Generates lib book n text operation) :
    Fits lib book.workflow (.value operation n) text := by
  cases operation with
  | random => exact h
  | time => exact h.readable
  | uuid => exact h

/-- Random numbers and UUIDs have only one text that fits. -/
theorem Fits.unique (hoperation : operation ≠ .time) {text text' : String}
    (h : Fits lib workflow (.value operation n) text)
    (h' : Fits lib workflow (.value operation n) text') : text' = text := by
  cases operation with
  | random => exact Eq.trans h' (Eq.symm h)
  | time => exact absurd rfl hoperation
  | uuid => exact Eq.trans h' (Eq.symm h)

/-- **One call.**  It keeps the invariant if a stored timestamp is only replaced by itself,
where timestamps are kept. -/
theorem Replayed.call {before after : List Progress}
    (h : Replayed lib workflow keeps data (before ++ book :: after)) {c : DataCall}
    (hpre : (replay lib workflow).pre c book)
    (htime : ∀ n text, c = .setWorkflowData workflow (.value .time n) text → keeps .time →
      ∀ text', stored data workflow (.value .time n) = some text' → text' = text)
    (clock : Timestamp) :
    (replay lib workflow).resp c book (exec clock c data).1 ∧
      Replayed lib workflow keeps (exec clock c data).2
        (before ++ (replay lib workflow).next c (exec clock c data).1 book :: after) := by
  obtain ⟨counts, hshelf, hknows⟩ := h
  have hmem : book ∈ before ++ book :: after := by simp
  cases c with
  | utcNow => exact ⟨trivial, counts, hshelf, hknows⟩
  | getWorkflowData id key =>
      obtain ⟨rfl, hnext⟩ := hpre
      refine ⟨?_, counts, hshelf, forall_replace hknows (fun _ h => h) fun hworkflow => ?_⟩
      · rintro rfl text htext
        exact hshelf.fits key text htext
      · rw [next_workflow] at hworkflow
        subst hworkflow
        exact (hknows book hmem rfl).noteAnswer hshelf hnext
  | setWorkflowData id key text =>
      have hid : id = book.workflow := by cases key <;> exact hpre.1
      subst hid
      refine ⟨trivial, ?_⟩
      by_cases hworkflow : book.workflow = workflow
      · subst hworkflow
        have hknown := hknows book hmem rfl
        cases key with
        | value operation n =>
            obtain ⟨-, rfl, -, hgenerates⟩ := hpre
            have hfits := (hgenerates rfl).fits
            have hkeep : keeps operation → ∀ text',
                stored data book.workflow
                  (.value operation ((book.values operation).length + 1)) = some text' →
                text' = text := by
              intro hkeeps text' htext'
              by_cases hoperation : operation = .time
              · subst hoperation
                exact htime _ _ rfl hkeeps text' htext'
              · exact hfits.unique hoperation (hshelf.fits _ _ htext')
            refine ⟨filledTo counts operation ((book.values operation).length + 1),
              hshelf.storeValue (by omega) (by have := hknown.length operation; omega) hfits,
              forall_replace hknows (fun b hb hworkflow => (hb hworkflow).storeValue hkeep) ?_⟩
            intro _
            refine (hknown.storeValue hkeep).gain ?_ fun _ => stored_insert_self _ _ _ _
            simp [filledTo]
        | counter operation =>
            obtain ⟨-, rfl⟩ := hpre
            have hle : max (book.total operation) (book.values operation).length ≤
                counts operation := max_le (hknown.total operation) (hknown.length operation)
            have heq : ∀ operation' n, stored (data.insert (book.workflow,
                (DataKey.counter operation).text)
                  (toString (max (book.total operation) (book.values operation).length)))
                  book.workflow (.value operation' n) =
                stored data book.workflow (.value operation' n) :=
              fun operation' n => stored_insert_of_ne (by simp)
            refine ⟨counts, hshelf.storeCounter hle,
              forall_replace hknows (fun b hb hworkflow => (hb hworkflow).of_stored_eq heq) ?_⟩
            intro _
            have hknown' := hknown.of_stored_eq heq
            exact ⟨hknown'.length, hknown'.total, hknown'.kept⟩
        | baseTime =>
            obtain ⟨-, -, t, rfl⟩ := hpre
            have heq : ∀ operation n, stored (data.insert (book.workflow, DataKey.baseTime.text)
                (lib.toRfc3339 t)) book.workflow (.value operation n) =
                stored data book.workflow (.value operation n) :=
              fun operation n => stored_insert_of_ne (by simp)
            refine ⟨counts, hshelf.storeBaseTime t,
              forall_replace hknows (fun b hb hworkflow => (hb hworkflow).of_stored_eq heq) ?_⟩
            intro _
            have hknown' := hknown.of_stored_eq heq
            exact ⟨hknown'.length, hknown'.total, hknown'.kept⟩
      · -- the data of another workflow
        have heq : ∀ key', stored (data.insert (book.workflow, key.text) text) workflow key' =
            stored data workflow key' :=
          fun key' => stored_insert_of_ne fun h => hworkflow (Prod.mk.inj h).1.symm
        refine ⟨counts, hshelf.of_stored_eq heq, forall_replace hknows
          (fun b hb hb' => (hb hb').of_stored_eq fun operation n => heq _) fun hnext => ?_⟩
        rw [next_workflow] at hnext
        exact absurd hnext hworkflow

end Steps

/-! ## Runs -/

section Runs

variable {lib : Library} {workflow : InvocationId} {G : Guard dataCalls WorkflowData Execution}
  {data : WorkflowData} {s : System dataCalls WorkflowData Execution} (keeps : Operation → Prop)
  {operation : Operation} {t : Thread dataCalls Execution}

/-- Nothing is stored for the workflow yet. -/
def Fresh (workflow : InvocationId) (data : WorkflowData) : Prop :=
  ∀ key, stored data workflow key = none

/-- A stored timestamp is replaced only by itself. -/
def TimesKept (lib : Library) (workflow : InvocationId)
    (G : Guard dataCalls WorkflowData Execution) (data : WorkflowData) : Prop :=
  ∀ s i t n text, Reachable (workflowMachine lib) G (idle data) s → s.threads[i]? = some t →
    t.next? = some (.setWorkflowData workflow (.value .time n) text) →
    G.call s i (.setWorkflowData workflow (.value .time n) text) →
    (replay lib workflow).pre (.setWorkflowData workflow (.value .time n) text)
      ((replay lib workflow).book t) →
    ∀ text', stored s.shared workflow (.value .time n) = some text' → text' = text

theorem upheld (hfresh : Fresh workflow data)
    (hkept : keeps .time → TimesKept lib workflow G data) :
    (replay lib workflow).Upheld (fun _ => True) (Replayed lib workflow keeps)
      (workflowMachine lib) G (idle data) where
  program _ execution _ :=
    Discipline.Obeys.toUnit (Discipline.Obeys.mono (first_obeys execution _) fun _ _ _ => trivial)
  obey := by
    intro t ht
    simp [idle] at ht
  logs := by simp [idle]
  holds := by
    refine ⟨fun _ => 0, ⟨?_, ?_, ?_⟩, ?_⟩
    · intro key text htext
      change stored data workflow key = some text at htext
      rw [hfresh key] at htext
      cases htext
    · intro operation n
      change (stored data workflow _).isSome = true ↔ _
      rw [hfresh]
      simp
      omega
    · intro operation
      change ((stored data workflow (.counter operation)).bind parseU64).getD 0 ≤ 0
      rw [hfresh]
      simp
    · intro book hbook
      simp [idle, System.books] at hbook
  start s execution _ hinv := by
    obtain ⟨counts, hshelf, hknows⟩ := hinv
    refine ⟨counts, hshelf, fun book hbook hworkflow => ?_⟩
    rcases List.mem_append.mp hbook with hbook | hbook
    · exact hknows book hbook hworkflow
    · obtain rfl := List.mem_singleton.mp hbook
      exact ⟨fun _ => Nat.zero_le _, fun _ => Nat.zero_le _, fun _ _ n text htext => by
        simp [replay] at htext⟩
  call s i clock t c before after hturn hinv := by
    refine hinv.call hturn.permitted ?_ clock
    rintro n text rfl hkeeps
    exact hkept hkeeps s i t n text hturn.reachable hturn.thread hturn.next hturn.allowed
      hturn.permitted

/-- What two executions got for the same number of an operation whose values are kept. -/
theorem returned_eq (hfresh : Fresh workflow data)
    (hkept : keeps .time → TimesKept lib workflow G data)
    (hs : Reachable (workflowMachine lib) G (idle data) s) (hkeeps : keeps operation) {n : Nat}
    {value : WorkflowValue} (ht : t ∈ s.threads) (hworkflow : t.task.workflow = workflow)
    (hreturned : Returned lib t operation n value) :
    ∃ text, stored s.shared workflow (.value operation n) = some text ∧ Reads lib text value := by
  have hupheld := upheld keeps hfresh hkept
  obtain ⟨text, htext, hreads⟩ := hreturned.text (hupheld.follows hs t ht) hworkflow
  obtain ⟨counts, -, hknows⟩ := (hupheld.obeyed hs).2
  have hbook := hknows ((replay lib workflow).book t) (List.mem_map_of_mem ht)
    ((book_workflow t).trans hworkflow)
  refine ⟨text, ?_, hreads⟩
  have hstored := hbook.kept operation hkeeps (n - 1) text htext
  obtain ⟨-, -, hpos, -⟩ := hreturned
  rwa [Nat.sub_add_cancel hpos] at hstored

theorem Returned.operation_eq {n : Nat} {value : WorkflowValue}
    (h : Returned lib t operation n value) :
    value.operation = operation := by
  obtain ⟨results, -, -, hvalue⟩ := h
  have hmem := List.mem_of_getElem? hvalue
  simpa using (List.mem_filter.mp hmem).2

/-- A text is read in one way. -/
theorem Reads.unique {text : String} {value value' : WorkflowValue} (h : Reads lib text value)
    (h' : Reads lib text value') (hoperation : value.operation = value'.operation) :
    value = value' := by
  cases value <;> cases value' <;> simp_all [Reads, WorkflowValue.operation]

/-- The executions of one workflow agree on the values of an operation, and these are the
stored ones. -/
def Agree (lib : Library) (workflow : InvocationId) (operation : Operation)
    (s : System dataCalls WorkflowData Execution) : Prop :=
  ∀ n t value, t ∈ s.threads → t.task.workflow = workflow → Returned lib t operation n value →
    (∃ text, stored s.shared workflow (.value operation n) = some text ∧ Reads lib text value) ∧
    ∀ t' value', t' ∈ s.threads → t'.task.workflow = workflow →
      Returned lib t' operation n value' → value' = value

theorem agree (hfresh : Fresh workflow data) (hkept : keeps .time → TimesKept lib workflow G data)
    (hs : Reachable (workflowMachine lib) G (idle data) s)
    (hkeeps : keeps operation) : Agree lib workflow operation s := by
  intro n t value ht hworkflow hreturned
  obtain ⟨text, hstored, hreads⟩ := returned_eq keeps hfresh hkept hs hkeeps ht hworkflow hreturned
  refine ⟨⟨text, hstored, hreads⟩, fun t' value' ht' hworkflow' hreturned' => ?_⟩
  obtain ⟨text', hstored', hreads'⟩ :=
    returned_eq keeps hfresh hkept hs hkeeps ht' hworkflow' hreturned'
  rw [hstored] at hstored'
  obtain rfl := Option.some.inj hstored'
  exact hreads'.unique hreads (hreturned'.operation_eq.trans hreturned.operation_eq.symm)

end Runs

/-! ## Executions that do not overlap -/

/-- No execution of the same workflow was started after execution `i`. -/
def Latest (s : System dataCalls WorkflowData Execution) (i : Nat) : Prop :=
  ∀ j t t', i < j → s.threads[i]? = some t → s.threads[j]? = some t' →
    t'.task.workflow ≠ t.task.workflow

variable {s : System dataCalls WorkflowData Execution}

theorem latest_iff {i : Nat} :
    Latest s i ↔ ∀ t ∈ s.threads[i]?, ∀ t' ∈ s.threads.drop (i + 1),
      t'.task.workflow ≠ t.task.workflow := by
  constructor
  · intro h t ht t' ht'
    obtain ⟨j, hj⟩ := List.mem_iff_getElem?.mp ht'
    rw [List.getElem?_drop] at hj
    exact h (i + 1 + j) t t' (by omega) ht hj
  · intro h j t t' hlt ht ht'
    refine h t ht t' (List.mem_iff_getElem?.mpr ⟨j - (i + 1), ?_⟩)
    rw [List.getElem?_drop, show i + 1 + (j - (i + 1)) = j by omega]
    exact ht'

instance (s : System dataCalls WorkflowData Execution) (i : Nat) : Decidable (Latest s i) :=
  decidable_of_iff _ latest_iff.symm

/-- An execution makes no further call once a later one of the same workflow has started. -/
def sequential : Guard dataCalls WorkflowData Execution :=
  ⟨fun _ _ => True, fun s i _ => Latest s i⟩

instance (s : System dataCalls WorkflowData Execution) (execution : Execution) :
    Decidable (sequential.start s execution) :=
  inferInstanceAs (Decidable True)

instance (s : System dataCalls WorkflowData Execution) (i : Nat) (c : DataCall) :
    Decidable (sequential.call s i c) :=
  inferInstanceAs (Decidable (Latest s i))

section Sequential

variable {lib : Library} {workflow : InvocationId} {data : WorkflowData}
  {s : System dataCalls WorkflowData Execution} {before after : List Progress}
  {book book' : Progress} {c : DataCall}

/-- An execution touches the data of its own workflow only. -/
theorem stored_exec_of_ne {book : Progress} (hpre : (replay lib workflow).pre c book)
    {other : InvocationId} (hother : other ≠ book.workflow) (clock : Timestamp)
    (data : WorkflowData) (key : DataKey) :
    stored (exec clock c data).2 other key = stored data other key := by
  cases c with
  | utcNow => rfl
  | getWorkflowData id key' => rfl
  | setWorkflowData id key' text =>
      have hid : id = book.workflow := by cases key' <;> exact hpre.1
      subst hid
      exact stored_insert_of_ne fun h => hother (Prod.mk.inj h).1

/-- What a call leaves as missing is missing after it, if that was so before. -/
theorem missing_next {book : Progress} (hpre : (replay lib workflow).pre c book) {clock : Timestamp}
    {data : WorkflowData} {key : DataKey}
    (hbefore : book.missing = some key → stored data book.workflow key = none)
    (hmissing : ((replay lib workflow).next c (exec clock c data).1 book).missing = some key) :
    stored (exec clock c data).2 book.workflow key = none := by
  cases c with
  | utcNow => exact hbefore hmissing
  | getWorkflowData id key' =>
      obtain ⟨rfl, -⟩ := hpre
      change (book.noteAnswer lib key' (stored data book.workflow key')).missing = some key
        at hmissing
      change stored data book.workflow key = none
      cases key' with
      | counter operation => cases hmissing
      | value operation n =>
          cases hstored : stored data book.workflow (.value operation n) with
          | some text =>
              rw [hstored] at hmissing
              cases hmissing
          | none =>
              rw [hstored] at hmissing
              obtain rfl := Option.some.inj hmissing
              exact hstored
      | baseTime =>
          cases hstored : stored data book.workflow .baseTime with
          | some text =>
              rw [hstored] at hmissing
              cases hmissing
          | none =>
              rw [hstored] at hmissing
              obtain rfl := Option.some.inj hmissing
              exact hstored
  | setWorkflowData id key' text => cases key' <;> cases hmissing

/-- A call starts no execution. -/
theorem Latest.of_afterCall {i j : Nat} {u : Thread dataCalls Execution} {clock : Timestamp}
    {k : c.Ret → Prog dataCalls Unit} (hu : s.threads[j]? = some u)
    (h : Latest (s.afterCall (workflowMachine lib) j u clock c k) i) : Latest s i := by
  have hj : j < s.threads.length := (List.getElem?_eq_some_iff.mp hu).1
  have hget : ∀ (m : Nat) (t : Thread dataCalls Execution), s.threads[m]? = some t →
      ∃ t' : Thread dataCalls Execution,
        (s.afterCall (workflowMachine lib) j u clock c k).threads[m]? = some t' ∧
          t'.task = t.task := by
    intro m t ht
    simp only [System.afterCall]
    by_cases hjm : j = m
    · subst hjm
      rw [hu] at ht
      obtain rfl := Option.some.inj ht
      exact ⟨_, List.getElem?_set_self hj, rfl⟩
    · exact ⟨t, by rw [List.getElem?_set_ne hjm]; exact ht, rfl⟩
  intro m t t' hlt ht ht'
  obtain ⟨t₁, ht₁, htask₁⟩ := hget i t ht
  obtain ⟨t₂, ht₂, htask₂⟩ := hget m t' ht'
  rw [← htask₁, ← htask₂]
  exact h m t₁ t₂ hlt ht₁ ht₂

/-- What the latest execution has found missing is missing. -/
theorem missing_of_latest (hfresh : Fresh workflow data)
    (hs : Reachable (workflowMachine lib) sequential (idle data) s)
    {i : Nat} {t : Thread dataCalls Execution} (ht : s.threads[i]? = some t)
    (hlatest : Latest s i) {key : DataKey}
    (hmissing : ((replay lib workflow).book t).missing = some key) :
    stored s.shared t.task.workflow key = none := by
  have hupheld : (replay lib workflow).Upheld (fun _ => True) (Replayed lib workflow (· ≠ .time))
      (workflowMachine lib) sequential (idle data) := upheld _ hfresh fun h => absurd rfl h
  induction hs generalizing i t key with
  | refl => simp [idle] at ht
  | @next s s' l hs hallow happly ih =>
      obtain ⟨execution, rfl, rfl⟩ | ⟨j, clock, u, c, k, rfl, hu, hprog, rfl⟩ :=
        System.apply_cases happly
      · -- a new execution has found nothing missing yet
        rcases Nat.lt_or_ge i s.threads.length with hi | hi
        · rw [List.getElem?_append_left hi] at ht
          refine ih ht ?_ hmissing
          intro m t₁ t₂ hlt ht₁ ht₂
          refine hlatest m t₁ t₂ hlt ?_ ?_
          · rw [List.getElem?_append_left hi]
            exact ht₁
          · rw [List.getElem?_append_left (List.getElem?_eq_some_iff.mp ht₂).1]
            exact ht₂
        · rw [List.getElem?_append_right hi] at ht
          have hmem := List.mem_singleton.mp (List.mem_of_getElem? ht)
          subst hmem
          cases hmissing
      · have hnext : u.next? = some c := by simp [Thread.next?, hprog]
        have hj : j < s.threads.length := (List.getElem?_eq_some_iff.mp hu).1
        have hlatestj : Latest s j := hallow u hu c hnext
        have hpre : (replay lib workflow).pre c ((replay lib workflow).book u) := by
          have hobey := (hupheld.obeyed hs).1 u (List.mem_of_getElem? hu)
          rw [hprog] at hobey
          exact hobey.1
        have hlatesti : Latest s i := hlatest.of_afterCall hu
        by_cases hij : j = i
        · subst hij
          have htu : t = { u with
              prog := k (exec clock c s.shared).1
              log := ⟨c, (exec clock c s.shared).1⟩ :: u.log } := by
            have hget := ht
            simp only [System.afterCall] at hget
            rw [List.getElem?_set_self hj] at hget
            exact (Option.some.inj hget).symm
          subst htu
          have hworkflow : ((replay lib workflow).book u).workflow = u.task.workflow :=
            book_workflow u
          have hbefore : ((replay lib workflow).book u).missing = some key →
              stored s.shared ((replay lib workflow).book u).workflow key = none := by
            rw [hworkflow]
            exact ih hu hlatestj
          have hstored := missing_next hpre hbefore hmissing
          rw [hworkflow] at hstored
          exact hstored
        · have ht' : s.threads[i]? = some t := by
            simp only [System.afterCall] at ht
            rwa [List.getElem?_set_ne hij] at ht
          have hne : t.task.workflow ≠ ((replay lib workflow).book u).workflow := by
            rw [book_workflow]
            rcases Nat.lt_or_gt_of_ne hij with hlt | hgt
            · exact hlatestj i u t hlt hu ht'
            · exact (hlatesti j t u hgt ht' hu).symm
          change stored (exec clock c s.shared).2 t.task.workflow key = none
          rw [stored_exec_of_ne hpre hne]
          exact ih ht' hlatesti hmissing

/-- Executions that do not overlap keep every timestamp. -/
theorem sequential_timesKept (hfresh : Fresh workflow data) :
    TimesKept lib workflow sequential data := by
  intro s i t n text hs ht _ hlatest hpre text' htext'
  have hmissing := missing_of_latest hfresh hs ht hlatest hpre.2.2.1
  have hworkflow : workflow = t.task.workflow := hpre.1.trans (book_workflow t)
  rw [← hworkflow, htext'] at hmissing
  cases hmissing

/-- All timestamps count from the stored base time, and so does every execution. -/
structure Anchored (lib : Library) (workflow : InvocationId) (data : WorkflowData)
    (books : List Progress) : Prop where
  times : ∀ n text, stored data workflow (.value .time n) = some text →
    ∃ b, stored data workflow .baseTime = some (lib.toRfc3339 b) ∧ text = generateTime lib b n
  bases : ∀ book ∈ books, book.workflow = workflow → ∀ b, book.base = some b →
    stored data workflow .baseTime = some (lib.toRfc3339 b)

theorem Anchored.of_stored_eq {data' : WorkflowData}
    (h : Anchored lib workflow data (before ++ book :: after))
    (hbase : stored data' workflow .baseTime = stored data workflow .baseTime)
    (htimes : ∀ n, stored data' workflow (.value .time n) = stored data workflow (.value .time n))
    (hbook : book'.workflow = workflow → ∀ b, book'.base = some b →
      stored data workflow .baseTime = some (lib.toRfc3339 b)) :
    Anchored lib workflow data' (before ++ book' :: after) := by
  constructor
  · intro n text htext
    rw [htimes] at htext
    rw [hbase]
    exact h.times n text htext
  · rw [hbase]
    exact forall_replace h.bases (fun _ h => h) hbook

/-- An execution stores a timestamp that counts from its base time. -/
theorem Anchored.storeTime (h : Anchored lib workflow data (before ++ book :: after))
    (hworkflow : book.workflow = workflow) {b : Timestamp} (hb : book.base = some b)
    (hbook : book'.base = book.base) (n : Nat) :
    Anchored lib workflow
      (data.insert (workflow, (DataKey.value .time n).text) (generateTime lib b n))
      (before ++ book' :: after) := by
  have hbase : stored (data.insert (workflow, (DataKey.value .time n).text)
      (generateTime lib b n)) workflow .baseTime = stored data workflow .baseTime :=
    stored_insert_of_ne (by simp)
  have hown := h.bases book (by simp) hworkflow
  constructor
  · intro m text htext
    rw [hbase]
    by_cases hm : m = n
    · subst hm
      rw [stored_insert_self] at htext
      exact ⟨b, hown b hb, (Option.some.inj htext).symm⟩
    · rw [stored_insert_of_ne (by simpa using hm)] at htext
      exact h.times m text htext
  · rw [hbase]
    refine forall_replace h.bases (fun _ h => h) fun _ => ?_
    rw [hbook]
    exact hown

/-- Where no base time is stored, nothing counts from one yet. -/
theorem Anchored.storeBase (h : Anchored lib workflow data (before ++ book :: after))
    (hnone : stored data workflow .baseTime = none) {t : Timestamp} (hbook : book'.base = some t) :
    Anchored lib workflow (data.insert (workflow, DataKey.baseTime.text) (lib.toRfc3339 t))
      (before ++ book' :: after) := by
  constructor
  · intro n text htext
    rw [stored_insert_of_ne (by simp)] at htext
    obtain ⟨b, hb, -⟩ := h.times n text htext
    rw [hnone] at hb
    cases hb
  · rw [stored_insert_self]
    refine forall_replace h.bases ?_ ?_
    · intro other hother hworkflow b hb
      have hstored := hother hworkflow b hb
      rw [hnone] at hstored
      cases hstored
    · intro _ b hb
      rw [hbook] at hb
      rw [Option.some.inj hb]

/-- One call of the latest execution. -/
theorem Anchored.call {keeps : Operation → Prop} {book : Progress}
    (hreplayed : Replayed lib workflow keeps data (before ++ book :: after))
    (h : Anchored lib workflow data (before ++ book :: after))
    (hpre : (replay lib workflow).pre c book)
    (hmissing : ∀ key, book.missing = some key → stored data book.workflow key = none)
    (clock : Timestamp) :
    Anchored lib workflow (exec clock c data).2
      (before ++ (replay lib workflow).next c (exec clock c data).1 book :: after) := by
  have hmem : book ∈ before ++ book :: after := by simp
  have hown := h.bases book hmem
  cases c with
  | utcNow => exact h.of_stored_eq rfl (fun _ => rfl) hown
  | getWorkflowData id key =>
      obtain ⟨rfl, -⟩ := hpre
      refine h.of_stored_eq rfl (fun _ => rfl) fun hworkflow b hb => ?_
      rw [next_workflow] at hworkflow
      subst hworkflow
      change (book.noteAnswer lib key (stored data book.workflow key)).base = some b at hb
      cases key with
      | counter operation => exact hown rfl b hb
      | value operation n =>
          cases hstored : stored data book.workflow (.value operation n) with
          | none =>
              rw [hstored] at hb
              exact hown rfl b hb
          | some text =>
              rw [hstored] at hb
              exact hown rfl b hb
      | baseTime =>
          cases hstored : stored data book.workflow .baseTime with
          | none =>
              rw [hstored] at hb
              rw [← hstored]
              exact hown rfl b hb
          | some text =>
              -- the stored base time reads back
              obtain ⟨counts, hshelf, -⟩ := hreplayed
              obtain ⟨t, rfl⟩ := hshelf.fits _ _ hstored
              rw [hstored] at hb
              simp only [Progress.noteAnswer, lib.parse_toRfc3339, Option.some.injEq] at hb
              rw [hb]
  | setWorkflowData id key text =>
      have hid : id = book.workflow := by cases key <;> exact hpre.1
      subst hid
      by_cases hworkflow : book.workflow = workflow
      · subst hworkflow
        cases key with
        | value operation n =>
            obtain ⟨-, -, -, hgenerates⟩ := hpre
            by_cases hoperation : operation = .time
            · subst hoperation
              obtain ⟨b, hb, rfl⟩ := hgenerates rfl
              refine h.storeTime rfl hb ?_ n
              rfl
            · refine h.of_stored_eq (stored_insert_of_ne (by simp))
                (fun m => stored_insert_of_ne ?_) hown
              simp [Ne.symm hoperation]
        | counter operation =>
            exact h.of_stored_eq (stored_insert_of_ne (by simp))
              (fun m => stored_insert_of_ne (by simp)) hown
        | baseTime =>
            obtain ⟨-, hbaseMissing, t, rfl⟩ := hpre
            exact h.storeBase (hmissing _ hbaseMissing) (lib.parse_toRfc3339 t)
      · have heq : ∀ key', stored (data.insert (book.workflow, key.text) text) workflow key' =
            stored data workflow key' :=
          fun key' => stored_insert_of_ne fun h => hworkflow (Prod.mk.inj h).1.symm
        refine h.of_stored_eq (heq _) (fun _ => heq _) fun hnext => ?_
        rw [next_workflow] at hnext
        exact absurd hnext hworkflow

theorem anchored (hfresh : Fresh workflow data)
    (hs : Reachable (workflowMachine lib) sequential (idle data) s) :
    Anchored lib workflow s.shared (s.books (replay lib workflow).toMonitor) := by
  have hupheld : (replay lib workflow).Upheld (fun _ => True)
      (Replayed lib workflow fun _ => True) (workflowMachine lib) sequential (idle data) :=
    upheld _ hfresh fun _ => sequential_timesKept hfresh
  refine ((hupheld.and (Anchored lib workflow) ?_ ?_ ?_).obeyed hs).2.2
  · constructor
    · intro n text htext
      change stored data workflow _ = some text at htext
      rw [hfresh] at htext
      cases htext
    · intro book hbook
      simp [idle, System.books] at hbook
  · intro s execution h
    refine ⟨h.times, fun book hbook => ?_⟩
    rcases List.mem_append.mp hbook with hbook | hbook
    · exact h.bases book hbook
    · obtain rfl := List.mem_singleton.mp hbook
      intro _ b hb
      cases hb
  · intro s i clock t c before after hturn hreplayed h
    refine Anchored.call hreplayed h hturn.permitted (fun key hkey => ?_) clock
    rw [book_workflow]
    exact missing_of_latest hfresh hturn.reachable hturn.thread hturn.allowed hkey

end Sequential

/-! ## Results -/

/-- The values of each operation are stored under 1 to `k`, and its counter shows at most
`k`. -/
def NoGaps (workflow : InvocationId) (data : WorkflowData) : Prop :=
  ∀ operation, ∃ k, (∀ n, (stored data workflow (.value operation n)).isSome ↔ 1 ≤ n ∧ n ≤ k) ∧
    storedCounter data workflow operation ≤ k

/-- Successive timestamps of one execution are one second apart. -/
def SecondsApart (lib : Library) (workflow : InvocationId)
    (s : System dataCalls WorkflowData Execution) : Prop :=
  ∀ t ∈ s.threads, t.task.workflow = workflow → ∀ n first second,
    Returned lib t .time n (.time first) → Returned lib t .time (n + 1) (.time second) →
      second = first + seconds 1

theorem secondsApart {lib : Library} {workflow : InvocationId} {data : WorkflowData}
    (hfresh : Fresh workflow data) (hs : Reachable (workflowMachine lib) sequential (idle data) s) :
    SecondsApart lib workflow s := by
  intro t ht hworkflow n first second hfirst hsecond
  have hanchored := anchored hfresh hs
  -- a timestamp that was returned counts from the base time that is stored now
  have hcounts : ∀ m value, Returned lib t .time m (.time value) →
      ∃ b, stored s.shared workflow .baseTime = some (lib.toRfc3339 b) ∧ value = b + seconds m := by
    intro m value hreturned
    obtain ⟨text, hstored, hreads⟩ := returned_eq (fun _ => True) hfresh
      (fun _ => sequential_timesKept hfresh) hs trivial ht hworkflow hreturned
    obtain ⟨b, hb, rfl⟩ := hanchored.times m text hstored
    have hparse : lib.parseRfc3339 (generateTime lib b m) = some value := hreads
    rw [generateTime, lib.parse_toRfc3339] at hparse
    exact ⟨b, hb, (Option.some.inj hparse).symm⟩
  obtain ⟨b, hb, rfl⟩ := hcounts n first hfirst
  obtain ⟨b', hb', rfl⟩ := hcounts (n + 1) second hsecond
  have heq : b = b' := by
    rw [hb] at hb'
    have htexts := congrArg lib.parseRfc3339 (Option.some.inj hb')
    rw [lib.parse_toRfc3339, lib.parse_toRfc3339] at htexts
    exact Option.some.inj htexts
  subst heq
  simp only [seconds]
  push_cast
  ring

/-- **Deterministic replay.**  In any interleaving of executions, stopped or not: every
execution got the same random numbers and UUIDs, which are the stored ones, and the stored
values and counters have no gaps.  If the executions of the workflow do not overlap, they
also got the same timestamps, one second apart. -/
theorem deterministic_replay (lib : Library) (workflow : InvocationId) {data : WorkflowData}
    (hfresh : Fresh workflow data) :
    (∀ s, Reachable (workflowMachine lib) (Guard.top _ _ _) (idle data) s →
      Agree lib workflow .random s ∧ Agree lib workflow .uuid s ∧ NoGaps workflow s.shared) ∧
    (∀ s, Reachable (workflowMachine lib) sequential (idle data) s →
      Agree lib workflow .time s ∧ SecondsApart lib workflow s) := by
  constructor
  · intro s hs
    have hkept : Operation.time ≠ .time → TimesKept lib workflow (Guard.top _ _ _) data :=
      fun h => absurd rfl h
    refine ⟨agree (· ≠ .time) hfresh hkept hs (by simp),
      agree (· ≠ .time) hfresh hkept hs (by simp), fun operation => ?_⟩
    obtain ⟨counts, hshelf, -⟩ := ((upheld (· ≠ .time) hfresh hkept).obeyed hs).2
    exact ⟨counts operation, hshelf.filled operation, hshelf.counter operation⟩
  · intro s hs
    exact ⟨agree (fun _ => True) hfresh (fun _ => sequential_timesKept hfresh) hs trivial,
      secondsApart hfresh hs⟩

/-! ## Runs -/

/-- The instants of the runs below, as they are formatted. -/
def sampleTimes : List (Timestamp × String) :=
  [(0, "1970-01-01T00:00:00+00:00"), (1000000000, "1970-01-01T00:00:01+00:00"),
    (2000000000, "1970-01-01T00:00:02+00:00"), (3000000000, "1970-01-01T00:00:03+00:00")]

/-- Other instants, by a sign and a tally. -/
def tally (t : Timestamp) : String :=
  String.ofList ((if t < 0 then '-' else '+') :: List.replicate t.natAbs 'n')

def readTally (text : String) : Option Timestamp :=
  match text.toList with
  | '-' :: rest => some (-(rest.length : Int))
  | '+' :: rest => some (rest.length : Int)
  | _ => none

theorem readTally_tally (t : Timestamp) : readTally (tally t) = some t := by
  unfold readTally tally
  rw [String.toList_ofList]
  by_cases hneg : t < 0
  · rw [if_pos hneg]
    simp only [List.length_replicate, Option.some.injEq]
    rw [Int.ofNat_natAbs_of_nonpos (le_of_lt hneg), neg_neg]
  · rw [if_neg hneg]
    simp only [List.length_replicate, Option.some.injEq]
    exact Int.natAbs_of_nonneg (not_lt.mp hneg)

def sampleFormat (t : Timestamp) : String :=
  match sampleTimes.find? fun entry => entry.1 = t with
  | some entry => entry.2
  | none => tally t

def sampleParse (text : String) : Option Timestamp :=
  match sampleTimes.find? fun entry => entry.2 = text with
  | some entry => some entry.1
  | none => readTally text

theorem sampleParse_sampleFormat (t : Timestamp) : sampleParse (sampleFormat t) = some t := by
  have hentries : ∀ entry ∈ sampleTimes,
      sampleParse entry.2 = some entry.1 ∧ entry.2.toList.head? = some '1' := by
    decide +kernel
  cases hformat : sampleTimes.find? fun entry => entry.1 = t with
  | some entry =>
      have heq : entry.1 = t := by simpa using List.find?_some hformat
      have hentry := (hentries entry (List.mem_of_find?_eq_some hformat)).1
      rw [heq] at hentry
      simpa only [sampleFormat, hformat] using hentry
  | none =>
      -- a tally starts with a sign
      have hparse : (sampleTimes.find? fun entry => entry.2 = tally t) = none := by
        rw [List.find?_eq_none]
        intro entry hmem heq
        have hhead := (hentries entry hmem).2
        rw [of_decide_eq_true heq, tally, String.toList_ofList] at hhead
        simp only [List.head?_cons, Option.some.injEq] at hhead
        split at hhead <;> simp at hhead
      simp only [sampleFormat, hformat, sampleParse, hparse]
      exact readTally_tally t

/-- `Uuid::to_string` -/
def hyphenated (bytes : Fin 16 → UInt8) : String :=
  let hex := (List.finRange 16).map fun i =>
    (if i = 4 ∨ i = 6 ∨ i = 8 ∨ i = 10 then ['-'] else []) ++
      [Nat.digitChar ((bytes i).toNat / 16), Nat.digitChar ((bytes i).toNat % 16)]
  String.ofList hex.flatten

/-- The digest of the only seed that the runs below use. -/
def sampleDigest : List UInt8 :=
  [129, 7, 197, 33, 215, 8, 83, 100, 124, 236, 171, 13, 152, 173, 94, 78, 186, 42, 113, 76, 131,
    119, 238, 53, 57, 126, 135, 10, 217, 194, 253, 136]

def sampleLibrary : Library where
  sha256 seed i := if seed = "wf:uuid:1" then sampleDigest.getD i 0 else 0
  randomText _ := "0"
  parseF64 _ := none
  uuidText := hyphenated
  toRfc3339 := sampleFormat
  parseRfc3339 := sampleParse
  parse_toRfc3339 := sampleParse_sampleFormat

/-- What the executions of a pool returned, those that have come to their end. -/
def outcomes (lib : Library) (s : System dataCalls WorkflowData Execution) :
    List (Option (List WorkflowValue)) :=
  s.threads.map fun t => (t.task.first lib t.task.calls.length).outcome t.log.reverse

theorem returned_of_outcomes {lib : Library} {i : Nat} {results : List WorkflowValue}
    (h : (outcomes lib s)[i]? = some (some results)) {operation : Operation} {n : Nat}
    {value : WorkflowValue} (hpos : 1 ≤ n)
    (hvalue : (ofOperation operation results)[n - 1]? = some value) :
    ∃ t, s.threads[i]? = some t ∧ Returned lib t operation n value := by
  rw [outcomes, List.getElem?_map, Option.map_eq_some_iff] at h
  obtain ⟨t, ht, houtcome⟩ := h
  exact ⟨t, ht, results, ⟨_, _, [], by simp, houtcome⟩, hpos, hvalue⟩

theorem fresh_empty (workflow : InvocationId) : Fresh workflow ∅ :=
  fun _ => AList.lookup_empty _

/-- The first execution is stopped behind its first timestamp, the second one replays. -/
def stopAndReplay : List (Label Timestamp Execution) :=
  .start ⟨⟨"wf"⟩, [.uuid, .time, .time]⟩ :: Label.steps 0 9 0 ++
    .start ⟨⟨"wf"⟩, [.uuid, .time, .time]⟩ :: Label.steps 1 8 3000000000

theorem deterministic_replay_stopped :
    ∃ s, Reachable (workflowMachine sampleLibrary) sequential (idle ∅) s ∧
      outcomes sampleLibrary s =
        [none, some [.uuid "8107c521-d708-4364-bcec-ab0d98ad5e4e", .time 1000000000,
          .time 2000000000]] ∧
      Agree sampleLibrary ⟨"wf"⟩ .uuid s ∧ NoGaps ⟨"wf"⟩ s.shared ∧
      Agree sampleLibrary ⟨"wf"⟩ .time s ∧ SecondsApart sampleLibrary ⟨"wf"⟩ s := by
  obtain ⟨s, hs, houtcomes⟩ := Reachable.exists_of_run (workflowMachine sampleLibrary) sequential
    (idle ∅) stopAndReplay
    (fun s => outcomes sampleLibrary s =
      [none, some [.uuid "8107c521-d708-4364-bcec-ab0d98ad5e4e", .time 1000000000,
        .time 2000000000]])
    (by decide +kernel) (by decide +kernel)
  have hreplay := deterministic_replay sampleLibrary ⟨"wf"⟩ (fresh_empty ⟨"wf"⟩)
  have htop := hreplay.1 s (hs.mono (fun _ _ _ => trivial) fun _ _ _ _ => trivial)
  exact ⟨s, hs, houtcomes, htop.2.1, htop.2.2, hreplay.2 s hs⟩

end Rustvello.Workflow
