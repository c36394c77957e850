import Rustvello.Monitoring.UnifiedLines

/-!
# Bracket contexts

What the parser finds in a bracket context that `format_bracket` wrote.

* `InSpans` — a context with an application and a runner; its identifiers have no whitespace,
  parentheses or brackets;
* `expectedContext` — what was written of it;
* `runnerRe_tokens` — the runner and the worker are found, and the identifiers are what follows;
* `contextOf_formatBracket_iff` — everything is found exactly if the class is not the one that
  stands for workers, and the task stands behind an invocation.
-/

namespace Rustvello.Monitoring

open Text Regex

/-! ## Contexts -/

/-- An identifier in a span. -/
def PlainId (id : List Char) : Prop :=
  ∀ c ∈ id, isWhite c = false ∧ c ∉ ['(', ')', '[', ']']

/-- A context with an application and a runner; the other identifiers may be absent. -/
structure InSpans (sc : SpanContext) : Prop where
  appId_ne : sc.appId ≠ []
  appId : PlainId sc.appId
  runnerClass_ne : sc.runnerClass ≠ []
  runnerClass : ∀ c ∈ sc.runnerClass, c.isAlpha = true
  runnerId_ne : sc.runnerId ≠ []
  runnerId : PlainId sc.runnerId
  workerId : PlainId sc.workerId
  invocationId : PlainId sc.invocationId
  invocationId_colon : ':' ∉ sc.invocationId
  taskId : PlainId sc.taskId

/-- An empty identifier is absent. -/
def present (id : List Char) : Option (List Char) :=
  if id = [] then none else some id

/-- What is written of a context. -/
def expectedContext (sc : SpanContext) (compact : Bool) : LogContext :=
  (if sc.runnerId = [] then [] else [⟨sc.runnerClass, maybeTruncate sc.runnerId compact⟩],
    present (maybeTruncate sc.workerId compact), present sc.invocationId, present sc.taskId)

/-- The invocation, and the task after a colon. -/
def identifiers (sc : SpanContext) : List Char :=
  if sc.invocationId ≠ [] then
    sc.invocationId ++ if sc.taskId ≠ [] then ':' :: sc.taskId else []
  else []

section Written

variable {id : List Char} {sc : SpanContext} {compact : Bool}

theorem maybeTruncate_eq_nil : maybeTruncate id compact = [] ↔ id = [] := by
  cases compact <;> simp [maybeTruncate, truncateLength]

theorem PlainId.maybeTruncate (h : PlainId id) (compact : Bool) :
    PlainId (maybeTruncate id compact) := by
  cases compact with
  | false => exact h
  | true => exact fun c hc => h c (List.mem_of_mem_take hc)

theorem isAlpha_plain {c : Char} (h : c.isAlpha = true) :
    isWhite c = false ∧ c ∉ ['(', ')', '[', ']'] := by
  have hcode : (65 ≤ c.toNat ∧ c.toNat ≤ 90) ∨ (97 ≤ c.toNat ∧ c.toNat ≤ 122) := by
    have hletter : (decide ('A'.val ≤ c.val ∧ c.val ≤ 'Z'.val) ||
        decide ('a'.val ≤ c.val) && decide (c.val ≤ 'z'.val)) = true := h
    simpa [UInt32.le_iff_toNat_le] using hletter
  constructor
  · simp [isWhite]
    omega
  · intro hmem
    simp only [List.mem_cons, List.not_mem_nil, or_false] at hmem
    rcases hmem with rfl | rfl | rfl | rfl <;> cases h

theorem identifiers_plain (h : InSpans sc) : PlainId (identifiers sc) := by
  intro c hc
  unfold identifiers at hc
  split at hc
  · rcases List.mem_append.mp hc with hc | hc
    · exact h.invocationId c hc
    · split at hc
      · rcases List.mem_cons.mp hc with rfl | hc
        · decide
        · exact h.taskId c hc
      · cases hc
  · cases hc

/-- The runner, the worker if there is one, and the identifiers. -/
theorem formatBracket_eq (h : InSpans sc) (compact : Bool) : formatBracket sc compact =
    sc.runnerClass ++ '(' :: (maybeTruncate sc.runnerId compact ++ ')' ::
      ((if sc.workerId ≠ [] then
        '.' :: 'W' :: '(' :: (maybeTruncate sc.workerId compact ++ [')']) else []) ++
        identifiers sc)) := by
  unfold formatBracket
  rw [if_pos h.runnerId_ne]
  simp [identifiers]

theorem formatBracket_ne_nil (h : InSpans sc) (compact : Bool) : formatBracket sc compact ≠ [] := by
  rw [formatBracket_eq h]
  simp

/-- No whitespace and no brackets are written inside. -/
theorem formatBracket_letters (h : InSpans sc) (compact : Bool) :
    ∀ c ∈ formatBracket sc compact, isWhite c = false ∧ c ∉ ['[', ']'] := by
  have hplain : ∀ {id : List Char}, PlainId id → ∀ c ∈ id, isWhite c = false ∧ c ∉ ['[', ']'] := by
    intro id hid c hc
    obtain ⟨hwhite, hmarks⟩ := hid c hc
    exact ⟨hwhite, fun hmem => hmarks (List.mem_cons_of_mem _ (List.mem_cons_of_mem _ hmem))⟩
  have hclass : PlainId sc.runnerClass := fun c hc => isAlpha_plain (h.runnerClass c hc)
  have hworker : ∀ c ∈ (if sc.workerId ≠ [] then
      '.' :: 'W' :: '(' :: (maybeTruncate sc.workerId compact ++ [')']) else []),
      isWhite c = false ∧ c ∉ ['[', ']'] := by
    split
    · simp only [List.forall_mem_cons, List.forall_mem_append]
      exact ⟨by decide, by decide, by decide, hplain (h.workerId.maybeTruncate compact), by decide,
        nofun⟩
    · nofun
  rw [formatBracket_eq h]
  simp only [List.forall_mem_cons, List.forall_mem_append]
  exact ⟨hplain hclass, by decide, hplain (h.runnerId.maybeTruncate compact), by decide, hworker,
    hplain (identifiers_plain h)⟩

end Written

/-! ## Runners -/

section Runners

variable {cls id text rest : List Char}

/-- A class in front of an identifier in parentheses. -/
theorem runnerRe_first (hcls : ∀ c ∈ cls, c.isAlpha = true) (hne : cls ≠ []) (hid : PlainId id)
    (hidne : id ≠ []) (rest : List Char) :
    runnerRe.first (cls ++ '(' :: (id ++ ')' :: rest)) = some ([(1, cls), (2, id)], rest) := by
  have hclass : Leads (group 1 (plus Char.isAlpha)) Char.isAlpha
      (cls ++ '(' :: (id ++ ')' :: rest)) [(1, cls)] ('(' :: (id ++ ')' :: rest)) :=
    (leads_plus hcls hne fun c hc => by cases hc; rfl).group 1
  have hclose : ∀ c ∈ id, decide (c ≠ ')') = true := by
    intro c hc
    refine decide_eq_true ?_
    rintro rfl
    exact (hid _ hc).2 (by simp)
  have hinner : Leads (group 2 (plus fun c => c ≠ ')')) (fun c => c ≠ ')') (id ++ ')' :: rest)
      [(2, id)] (')' :: rest) :=
    (leads_plus hclose hidne fun c hc => by cases hc; rfl).group 2
  exact first_seq hclass.first (first_seq (leads_letter '(' (fun _ => false) _).first
    (first_seq hinner.first (first_seq (leads_letter ')' (fun _ => false) rest).first rfl)))

/-- Without a parenthesis there is no runner. -/
theorem runnerRe_fails (h : '(' ∉ text) : runnerRe.run text = [] := by
  show (seq _ (seq (letter '(') _)).run text = []
  rw [run_seq, List.flatMap_eq_nil_iff]
  intro m hm
  have hnone : (letter '(').run m.2 = [] := by
    cases hrest : m.2 with
    | nil => rfl
    | cons c rest =>
        have hmem : c ∈ text := (suffix_of_mem_run hm).subset (by rw [hrest]; simp)
        rw [letter, run, if_neg (by simpa using ne_of_mem_of_not_mem hmem h)]
  rw [run_seq_of_nil hnone, List.map_nil]

theorem runnerRe_tokens_ids (hid : PlainId id) : tokens runnerRe 0 id = id.map .inl :=
  tokens_of_fails fun _ hsuffix => runnerRe_fails fun hmem =>
    (hid _ (hsuffix.subset hmem)).2 (by simp)

/-- A runner at the beginning of a text. -/
theorem runnerRe_tokens_runner (hcls : ∀ c ∈ cls, c.isAlpha = true) (hne : cls ≠ [])
    (hid : PlainId id) (hidne : id ≠ []) (rest : List Char) :
    tokens runnerRe 0 (cls ++ '(' :: (id ++ ')' :: rest)) =
      .inr [(0, cls ++ '(' :: (id ++ [')'])), (1, cls), (2, id)] :: tokens runnerRe 0 rest := by
  have htext : cls ++ '(' :: (id ++ ')' :: rest) = (cls ++ '(' :: (id ++ [')'])) ++ rest := by simp
  have hfirst := runnerRe_first hcls hne hid hidne rest
  rw [htext] at hfirst ⊢
  exact tokens_of_first hfirst (by simp)

/-- What is found in a context: its runner, its worker, and the letters behind them. -/
theorem runnerRe_tokens {sc : SpanContext} (h : InSpans sc) (compact : Bool) :
    tokens runnerRe 0 (formatBracket sc compact) =
      .inr [(0, sc.runnerClass ++ '(' :: (maybeTruncate sc.runnerId compact ++ [')'])),
        (1, sc.runnerClass), (2, maybeTruncate sc.runnerId compact)] ::
      ((if sc.workerId ≠ [] then [.inl '.', .inr
        [(0, 'W' :: '(' :: (maybeTruncate sc.workerId compact ++ [')'])), (1, ['W']),
          (2, maybeTruncate sc.workerId compact)]] else []) ++ (identifiers sc).map .inl) := by
  have hrunner : maybeTruncate sc.runnerId compact ≠ [] := fun hnil =>
    h.runnerId_ne (maybeTruncate_eq_nil.mp hnil)
  rw [formatBracket_eq h, runnerRe_tokens_runner h.runnerClass h.runnerClass_ne
    (h.runnerId.maybeTruncate compact) hrunner]
  split
  · rename_i hworker
    have hworkerId : maybeTruncate sc.workerId compact ≠ [] := fun hnil =>
      hworker (maybeTruncate_eq_nil.mp hnil)
    have hdot : FailsOn runnerRe fun c => !c.isAlpha :=
      (((failsOn_one fun c hc => by simpa using hc).seq _).group 1).seq _
    have htokens := runnerRe_tokens_runner
      (show ∀ c ∈ ['W'], c.isAlpha = true from forall_mem_of_all rfl) (List.cons_ne_nil _ _)
      (h.workerId.maybeTruncate compact) hworkerId (identifiers sc)
    have htext : '.' :: 'W' :: '(' :: (maybeTruncate sc.workerId compact ++ [')']) ++
        identifiers sc = '.' :: (['W'] ++ '(' :: (maybeTruncate sc.workerId compact ++ ')' ::
          identifiers sc)) := by simp
    rw [htext, tokens_cons_of_fails (hdot '.' _ rfl), htokens,
      runnerRe_tokens_ids (identifiers_plain h)]
    rfl
  · rw [List.nil_append, List.nil_append, runnerRe_tokens_ids (identifiers_plain h)]

end Runners

/-! ## The context -/

section Parsed

variable {sc : SpanContext} {compact : Bool}

theorem runnerRe_chain (h : InSpans sc) (compact : Bool) :
    (capturesIter runnerRe (formatBracket sc compact)).map
        (fun caps => (captured caps 1, captured caps 2)) =
      (sc.runnerClass, maybeTruncate sc.runnerId compact) ::
        if sc.workerId ≠ [] then [(['W'], maybeTruncate sc.workerId compact)] else [] := by
  have hids : ((identifiers sc).map (Sum.inl (β := Captures Char))).filterMap Sum.getRight? = [] := by
    rw [List.filterMap_map, List.filterMap_eq_nil_iff]
    exact fun _ _ => rfl
  unfold capturesIter
  rw [runnerRe_tokens h, List.filterMap_cons, List.filterMap_append, hids, List.append_nil]
  by_cases hworker : sc.workerId = []
  · rw [if_neg (not_not_intro hworker), if_neg (not_not_intro hworker)]
    rfl
  · rw [if_pos hworker, if_pos hworker]
    rfl

theorem runnerRe_afterLast (h : InSpans sc) (compact : Bool) :
    afterLast runnerRe (formatBracket sc compact) = identifiers sc := by
  have htokens := runnerRe_tokens h compact
  split at htokens
  · exact afterLast_of_tokens [_, _] htokens
  · exact afterLast_of_tokens [] htokens

/-- The identifiers are cut at the first colon. -/
theorem splitFirst_identifiers (h : InSpans sc) : splitFirst [':'] (identifiers sc) =
    if sc.invocationId ≠ [] ∧ sc.taskId ≠ [] then some (sc.invocationId, sc.taskId) else none := by
  rw [splitFirst_letter]
  by_cases hinv : sc.invocationId = []
  · simp [identifiers, hinv]
  · by_cases htask : sc.taskId = []
    · simp [identifiers, hinv, htask, h.invocationId_colon]
    · have hfront : ∀ c ∈ sc.invocationId, decide (c ≠ ':') = true := fun c hc =>
        decide_eq_true (ne_of_mem_of_not_mem hc h.invocationId_colon)
      have hids : identifiers sc = sc.invocationId ++ ':' :: sc.taskId := by
        simp [identifiers, hinv, htask]
      rw [hids, if_pos (by simp), if_pos ⟨hinv, htask⟩, List.takeWhile_append_of_pos hfront,
        List.dropWhile_append_of_pos hfront]
      simp

theorem idsOf_identifiers (h : InSpans sc) : idsOf (identifiers sc) =
    (present sc.invocationId, if sc.invocationId ≠ [] then present sc.taskId else none) := by
  unfold idsOf
  rw [splitFirst_identifiers h]
  by_cases hinv : sc.invocationId = []
  · simp [identifiers, present, hinv]
  · by_cases htask : sc.taskId = [] <;> simp [identifiers, present, hinv, htask]

/-- What is read back of a context. -/
theorem contextOf_formatBracket (h : InSpans sc) (compact : Bool) :
    (contextOf (formatBracket sc compact) {}).context =
      (if sc.runnerClass ≠ ['W'] then [⟨sc.runnerClass, maybeTruncate sc.runnerId compact⟩] else [],
        if sc.workerId ≠ [] then some (maybeTruncate sc.workerId compact)
          else if sc.runnerClass ≠ ['W'] then none else some (maybeTruncate sc.runnerId compact),
        present sc.invocationId,
        if sc.invocationId ≠ [] then present sc.taskId else none) := by
  unfold contextOf ParsedLogLine.context
  dsimp only
  rw [runnerRe_chain h, runnerRe_afterLast h, idsOf_identifiers h]
  by_cases hclass : sc.runnerClass = ['W'] <;> by_cases hworker : sc.workerId = [] <;>
    simp [hclass, hworker]

/-- A context comes back whole exactly if its class is not that of workers, and no task is without
its invocation. -/
theorem contextOf_formatBracket_iff (h : InSpans sc) (compact : Bool) :
    (contextOf (formatBracket sc compact) {}).context = expectedContext sc compact ↔
      sc.runnerClass ≠ ['W'] ∧ (sc.taskId ≠ [] → sc.invocationId ≠ []) := by
  rw [contextOf_formatBracket h, expectedContext, if_neg h.runnerId_ne]
  by_cases hclass : sc.runnerClass = ['W']
  · simp [hclass]
  · have hworker : present (maybeTruncate sc.workerId compact) =
        if sc.workerId ≠ [] then some (maybeTruncate sc.workerId compact) else none := by
      unfold present
      by_cases hnil : sc.workerId = []
      · rw [if_pos (maybeTruncate_eq_nil.mpr hnil), if_neg (not_not_intro hnil)]
      · rw [if_neg (fun hempty => hnil (maybeTruncate_eq_nil.mp hempty)), if_pos hnil]
    rw [hworker]
    by_cases hinv : sc.invocationId = [] <;> by_cases htask : sc.taskId = [] <;>
      simp [hclass, hinv, htask, present]

end Parsed

end Rustvello.Monitoring
