import Rustvello.Proto.PythonJson

/-!
# What a condition id determines

A condition id is the fields of a condition, written one after the other.  Stores key
conditions by it, so two conditions with one id are one condition to them.

* `Codec.Sound` — what the ids rely on: collision-free hexadecimal digests;
* `statusesText_inj`, `argumentFilterId_inj`, `exceptionText_inj` — the fields;
* `Admissible` — what the types of the source promise of a condition;
* `Separable` — no name contains a separator that the id is taken apart by;
* `isSatisfiedBy_eq_of_conditionId_eq` — separable conditions with one id are satisfied
  by the same contexts;
* `conditionId_collides` — other conditions are not, and the interval of a cron
  condition is not part of its id.
-/

namespace Rustvello.Proto

open Text

/-! ## Digests -/

def hexDigits : List Char :=
  "0123456789abcdef".toList

/-- SHA-256 without collisions, in hexadecimal, and JSON texts that can be read back. -/
structure Codec.Sound (codec : Codec) : Prop where
  sha256Hex_injective : Function.Injective codec.sha256Hex
  sha256Hex_hex : ∀ text, ∀ c ∈ codec.sha256Hex text, c ∈ hexDigits
  jsonText_injective : ∀ a b, a.floatFree = true → b.floatFree = true →
    codec.jsonText a = codec.jsonText b → a = b

/-! ## Sorted lists -/

theorem mem_sortTexts (texts : List (List Char)) (text : List Char) :
    text ∈ sortTexts texts ↔ text ∈ texts :=
  (List.perm_insertionSort _ texts).mem_iff

/-- Texts without separators, sorted and joined, are determined up to their order. -/
theorem joinSorted_inj {sep : Char} {as bs : List (List Char)} (ha : ∀ text ∈ as, sep ∉ text)
    (hb : ∀ text ∈ bs, sep ∉ text) (hnea : as ≠ []) (hneb : bs ≠ [])
    (h : join sep (sortTexts as) = join sep (sortTexts bs)) (text : List Char) :
    text ∈ as ↔ text ∈ bs := by
  have hne : ∀ {texts : List (List Char)}, texts ≠ [] → sortTexts texts ≠ [] := by
    intro texts hne hnil
    obtain ⟨head, tail, rfl⟩ := List.exists_cons_of_ne_nil hne
    have hhead := (mem_sortTexts (head :: tail) head).mpr (by simp)
    rw [hnil] at hhead
    exact absurd hhead (by simp)
  have hsorted : sortTexts as = sortTexts bs :=
    join_inj (fun text htext => ha text ((mem_sortTexts as text).mp htext))
      (fun text htext => hb text ((mem_sortTexts bs text).mp htext)) (hne hnea) (hne hneb) h
  rw [← mem_sortTexts as, ← mem_sortTexts bs, hsorted]

/-! ## Statuses -/

/-- The statuses of a condition, in the order in which they are written. -/
def sortStatuses (statuses : List InvocationStatus) : List InvocationStatus :=
  statuses.insertionSort fun a b => a.lowercase ≤ b.lowercase

def statusesText (statuses : List InvocationStatus) : List Char :=
  join '_' (sortTexts (statuses.map InvocationStatus.lowercase))

variable (statuses : List InvocationStatus)

theorem statusesText_eq :
    statusesText statuses = join '_' ((sortStatuses statuses).map InvocationStatus.lowercase) := by
  unfold statusesText sortTexts sortStatuses
  rw [List.map_insertionSort _ (· ≤ ·)]
  exact fun _ _ _ _ => Iff.rfl

/-- The words of a status name. -/
def words (status : InvocationStatus) : List (List Char) :=
  status.lowercase.splitOn '_'

/-- The words that only continue a status name. -/
def isContinuation (word : List Char) : Bool :=
  word ∈ ["controlled".toList, "final".toList, "recovery".toList]

theorem words_eq : ∀ status : InvocationStatus,
    (words status).head?.any (fun word => !isContinuation word) = true ∧
      (words status).tail.all isContinuation = true := by
  decide

theorem lowercase_ne_nil : ∀ status : InvocationStatus, status.lowercase ≠ [] := by
  decide

theorem hash_notMem_lowercase : ∀ status : InvocationStatus, '#' ∉ status.lowercase := by
  decide

theorem words_injective : ∀ a b : InvocationStatus, words a = words b → a = b := by
  decide

theorem splitOn_join_lowercase (status : InvocationStatus) (rest : List InvocationStatus) :
    (join '_' ((status :: rest).map InvocationStatus.lowercase)).splitOn '_' =
      (status :: rest).flatMap words := by
  induction rest generalizing status with
  | nil => simp [join, words]
  | cons next rest ih =>
      rw [List.map_cons, List.map_cons, join_cons_cons, List.splitOn_append_cons_self]
      have hnext := ih next
      rw [List.map_cons] at hnext
      rw [hnext, List.flatMap_cons]
      rfl

/-- What follows the words of a status does not continue its name. -/
theorem takeWhile_flatMap_words :
    (statuses.flatMap words).takeWhile isContinuation = [] := by
  cases statuses with
  | nil => rfl
  | cons status rest =>
      obtain ⟨hhead, _⟩ := words_eq status
      rw [List.flatMap_cons]
      cases hwords : words status with
      | nil => simp [hwords] at hhead
      | cons word tail =>
          have hword : isContinuation word = false := by simpa [hwords] using hhead
          simp [hword]

theorem flatMap_words_injective {as bs : List InvocationStatus}
    (h : as.flatMap words = bs.flatMap words) : as = bs := by
  induction as generalizing bs with
  | nil =>
      cases bs with
      | nil => rfl
      | cons b bs =>
          obtain ⟨hhead, _⟩ := words_eq b
          have hnone : words b = [] := by
            simp only [List.flatMap_nil, List.flatMap_cons] at h
            exact (List.append_eq_nil_iff.mp h.symm).1
          simp [hnone] at hhead
  | cons a as ih =>
      cases bs with
      | nil =>
          obtain ⟨hhead, _⟩ := words_eq a
          have hnone : words a = [] := by
            simp only [List.flatMap_nil, List.flatMap_cons] at h
            exact (List.append_eq_nil_iff.mp h).1
          simp [hnone] at hhead
      | cons b bs =>
          -- each name is a first word and the longest run of continuations after it
          obtain ⟨hheada, htaila⟩ := words_eq a
          obtain ⟨hheadb, htailb⟩ := words_eq b
          cases hwa : words a with
          | nil => simp [hwa] at hheada
          | cons wa ta =>
              cases hwb : words b with
              | nil => simp [hwb] at hheadb
              | cons wb tb =>
                  rw [List.flatMap_cons, List.flatMap_cons, hwa, hwb, List.cons_append,
                    List.cons_append, List.cons.injEq] at h
                  obtain ⟨hword, hrest⟩ := h
                  have hta : ∀ w ∈ ta, isContinuation w = true := by simpa [hwa] using htaila
                  have htb : ∀ w ∈ tb, isContinuation w = true := by simpa [hwb] using htailb
                  have htails := congrArg (List.takeWhile isContinuation) hrest
                  rw [List.takeWhile_append_of_pos hta, List.takeWhile_append_of_pos htb,
                    takeWhile_flatMap_words, takeWhile_flatMap_words, List.append_nil,
                    List.append_nil] at htails
                  have hab : a = b := words_injective a b (by rw [hwa, hwb, hword, htails])
                  rw [htails] at hrest
                  rw [hab, ih (List.append_cancel_left hrest)]

/-- The status field of an id determines which statuses it was written from. -/
theorem statusesText_inj {as bs : List InvocationStatus} (h : statusesText as = statusesText bs) :
    ∀ status, status ∈ as ↔ status ∈ bs := by
  rw [statusesText_eq, statusesText_eq] at h
  have hsorted : sortStatuses as = sortStatuses bs := by
    have hempty : ∀ status rest,
        join '_' ((status :: rest).map InvocationStatus.lowercase) ≠ [] := by
      intro status rest
      cases rest with
      | nil => simpa [join] using lowercase_ne_nil status
      | cons next rest => simp [join_cons_cons]
    cases has : sortStatuses as with
    | nil =>
        cases hbs : sortStatuses bs with
        | nil => rfl
        | cons b bs' =>
            rw [has, hbs] at h
            exact absurd h.symm (hempty b bs')
    | cons a as' =>
        cases hbs : sortStatuses bs with
        | nil =>
            rw [has, hbs] at h
            exact absurd h (hempty a as')
        | cons b bs' =>
            rw [has, hbs] at h
            have hsplit := congrArg (List.splitOn '_') h
            rw [splitOn_join_lowercase, splitOn_join_lowercase] at hsplit
            exact flatMap_words_injective hsplit
  intro status
  have hmem : ∀ statuses, status ∈ sortStatuses statuses ↔ status ∈ statuses := fun statuses =>
    (List.perm_insertionSort _ statuses).mem_iff
  rw [← hmem as, ← hmem bs, hsorted]

theorem hash_notMem_statusesText :
    '#' ∉ statusesText statuses := by
  intro hmem
  rw [statusesText_eq] at hmem
  rcases mem_join hmem with h | ⟨text, htext, h⟩
  · exact absurd h (by decide)
  · obtain ⟨status, _, rfl⟩ := List.mem_map.mp htext
    exact hash_notMem_lowercase status h

/-! ## Filters -/

/-- No filter value is a float. -/
def filterFloatFree (filter : Option Filter) : Bool :=
  JsonValue.floatFreeMembers (filter.getD [])

section Filters

variable {codec : Codec} {f g : Option Filter}

/-- An absent filter and an empty one are the same, for the id and for the check. -/
theorem argumentFilterId_inj (hcodec : codec.Sound) (hf : filterFloatFree f = true)
    (hg : filterFloatFree g = true)
    (h : argumentFilterId codec f = argumentFilterId codec g) : f.getD [] = g.getD [] := by
  have hdigest : ∀ text, "static_no_args".toList ≠ "static_".toList ++ codec.sha256Hex text := by
    intro text heq
    have hsuffix : "no_args".toList = codec.sha256Hex text := by
      have hsplit : "static_no_args".toList = "static_".toList ++ "no_args".toList := rfl
      rw [hsplit] at heq
      exact List.append_cancel_left heq
    have hn := hcodec.sha256Hex_hex text 'n' (by rw [← hsuffix]; decide)
    exact absurd hn (by decide)
  cases f with
  | none =>
      cases g with
      | none => rfl
      | some g =>
          cases g with
          | nil => rfl
          | cons member g => exact absurd h (hdigest _)
  | some f =>
      cases f with
      | nil =>
          cases g with
          | none => rfl
          | some g =>
              cases g with
              | nil => rfl
              | cons member g => exact absurd h (hdigest _)
      | cons member f =>
          cases g with
          | none => exact absurd h.symm (hdigest _)
          | some g =>
              cases g with
              | nil => exact absurd h.symm (hdigest _)
              | cons other g =>
                  have htexts := hcodec.sha256Hex_injective (List.append_cancel_left h)
                  exact pythonCompatibleJson_inj codec hf hg htexts

theorem checkArgumentFilter_congr (h : f.getD [] = g.getD []) (args : SerializedArguments) :
    checkArgumentFilter codec f args = checkArgumentFilter codec g args := by
  have hgetD : ∀ filter : Option Filter, checkArgumentFilter codec filter args =
      checkArgumentFilter codec (some (filter.getD [])) args := by
    rintro (_ | filter) <;> rfl
  rw [hgetD f, hgetD g, h]

theorem checkPayloadFilter_congr (h : f.getD [] = g.getD [])
    (payload : JsonValue) : checkPayloadFilter f payload = checkPayloadFilter g payload := by
  have hgetD : ∀ filter : Option Filter, checkPayloadFilter filter payload =
      checkPayloadFilter (some (filter.getD [])) payload := by
    rintro (_ | filter)
    · cases payload <;> rfl
    · rfl
  rw [hgetD f, hgetD g, h]

theorem resultFilterId_inj (hcodec : codec.Sound) {f g : Option JsonValue}
    (hf : ∀ value ∈ f, value.floatFree = true) (hg : ∀ value ∈ g, value.floatFree = true)
    (h : resultFilterId codec f = resultFilterId codec g) : f = g := by
  have hdigest : ∀ text, "no_result_filter".toList ≠ codec.sha256Hex text := by
    intro text heq
    have hn := hcodec.sha256Hex_hex text 'n' (by rw [← heq]; decide)
    exact absurd hn (by decide)
  cases f with
  | none =>
      cases g with
      | none => rfl
      | some g => exact absurd h (hdigest _)
  | some f =>
      cases g with
      | none => exact absurd h.symm (hdigest _)
      | some g =>
          have htexts := hcodec.sha256Hex_injective h
          exact congrArg some (hcodec.jsonText_injective f g (hf f rfl) (hg g rfl) htexts)

/-- The letters of a filter id. -/
theorem mem_argumentFilterId (hcodec : codec.Sound) (filter : Option Filter) {c : Char}
    (h : c ∈ argumentFilterId codec filter) :
    c ∈ "static_no_args".toList ∨ c ∈ hexDigits := by
  have hdigest : ∀ text, c ∈ "static_".toList ++ codec.sha256Hex text →
      c ∈ "static_no_args".toList ∨ c ∈ hexDigits := by
    intro text hmem
    rcases List.mem_append.mp hmem with hmem | hmem
    · left
      have hsplit : "static_no_args".toList = "static_".toList ++ "no_args".toList := rfl
      rw [hsplit]
      exact List.mem_append_left _ hmem
    · exact .inr (hcodec.sha256Hex_hex text c hmem)
  cases filter with
  | none => exact .inl h
  | some filter =>
      cases filter with
      | nil => exact .inl h
      | cons member filter => exact hdigest _ h

theorem notMem_argumentFilterId (hcodec : codec.Sound) (filter : Option Filter) {c : Char}
    (hc : c ∉ "static_no_args".toList ∧ c ∉ hexDigits) : c ∉ argumentFilterId codec filter :=
  fun h => (mem_argumentFilterId hcodec filter h).elim hc.1 hc.2

theorem hash_notMem_resultFilterId (hcodec : codec.Sound) (filter : Option JsonValue) :
    '#' ∉ resultFilterId codec filter := by
  cases filter with
  | none =>
      have hnone : '#' ∉ "no_result_filter".toList := by decide
      exact hnone
  | some value =>
      intro h
      exact absurd (hcodec.sha256Hex_hex _ '#' h) (by decide)

end Filters

/-! ## Tasks and exception types -/

/-- What the constructors of `TaskId` check (`try_for_language`). -/
def TaskId.Valid (taskId : TaskId) : Prop :=
  taskId.name ≠ "" ∧ '.' ∉ taskId.name.toList ∧ ¬ "::".toList <:+: taskId.name.toList ∧
    taskId.module ≠ "" ∧ ¬ "::".toList <:+: taskId.module.toList

instance (taskId : TaskId) : Decidable taskId.Valid :=
  inferInstanceAs (Decidable (_ ∧ _ ∧ _ ∧ _ ∧ _))

/-- The last dot of a task's text stands before its name. -/
theorem TaskId.toText_inj {t u : TaskId} (ht : t.Valid) (hu : u.Valid)
    (h : t.toText.toList = u.toText.toList) : t = u := by
  obtain ⟨language, module, name⟩ := t
  obtain ⟨language', module', name'⟩ := u
  simp only [TaskId.toText, String.toList_append, List.append_assoc] at h
  have hdot : ∀ x : List Char, ".".toList ++ x = '.' :: x := fun _ => rfl
  rw [hdot, hdot] at h
  simp only [← List.append_assoc] at h
  obtain ⟨hmodule, hname⟩ := append_cons_inj_right ht.2.1 hu.2.1 h
  have hname : name = name' := String.toList_inj.mp hname
  have hmodule : language = language' ∧ module = module' := by
    cases language <;> cases language' <;> simp [TaskLanguage.asStr] at hmodule
    · exact ⟨rfl, String.toList_inj.mp hmodule⟩
    · exact ⟨rfl, String.toList_inj.mp hmodule⟩
  rw [hmodule.1, hmodule.2, hname]

/-- A type name that the list of types can be read back from. -/
def SeparableType (type : String) : Prop :=
  '_' ∉ type.toList ∧ '#' ∉ type.toList ∧ type ≠ "any"

instance (type : String) : Decidable (SeparableType type) :=
  inferInstanceAs (Decidable (_ ∧ _ ∧ _))

/-- The names written for a list of types; every error is written `any`. -/
def typeNames (types : List String) : List String :=
  if types.isEmpty then ["any"] else types

theorem exceptionText_eq (types : List String) :
    exceptionText types = join '_' (sortTexts ((typeNames types).map String.toList)) := by
  unfold exceptionText typeNames
  split
  · rfl
  · rfl

/-- Types without separators are determined by their text; no type is written `any`. -/
theorem exceptionText_inj {as bs : List String} (ha : ∀ type ∈ as, SeparableType type)
    (hb : ∀ type ∈ bs, SeparableType type) (h : exceptionText as = exceptionText bs)
    (type : String) :
    (as.isEmpty || decide (type ∈ as)) = (bs.isEmpty || decide (type ∈ bs)) := by
  have hclean : ∀ types : List String, (∀ type ∈ types, SeparableType type) →
      ∀ text ∈ (typeNames types).map String.toList, '_' ∉ text := by
    intro types hsep text htext
    obtain ⟨name, hname, rfl⟩ := List.mem_map.mp htext
    unfold typeNames at hname
    split at hname
    · rw [List.mem_singleton.mp hname]
      decide
    · exact (hsep name hname).1
  have hne : ∀ types : List String, (typeNames types).map String.toList ≠ [] := by
    intro types
    unfold typeNames
    split
    · simp
    · rename_i hempty
      simpa using hempty
  rw [exceptionText_eq, exceptionText_eq] at h
  have hmem : ∀ name, name ∈ typeNames as ↔ name ∈ typeNames bs := by
    intro name
    have htexts := joinSorted_inj (hclean as ha) (hclean bs hb) (hne as) (hne bs) h name.toList
    simpa [String.toList_inj] using htexts
  unfold typeNames at hmem
  by_cases hnila : as = []
  · by_cases hnilb : bs = []
    · simp [hnila, hnilb]
    · have hany : "any" ∈ bs := by simpa [hnila, hnilb] using hmem "any"
      exact absurd rfl (hb "any" hany).2.2
  · by_cases hnilb : bs = []
    · have hany : "any" ∈ as := by simpa [hnila, hnilb] using hmem "any"
      exact absurd rfl (ha "any" hany).2.2
    · have hiff : type ∈ as ↔ type ∈ bs := by simpa [hnila, hnilb] using hmem type
      have hea : as.isEmpty = false := by simpa using hnila
      have heb : bs.isEmpty = false := by simpa using hnilb
      simp [hea, heb, hiff]

theorem hash_notMem_exceptionText {types : List String}
    (h : ∀ type ∈ types, SeparableType type) : '#' ∉ exceptionText types := by
  intro hmem
  unfold exceptionText at hmem
  split at hmem
  · exact absurd hmem (by decide)
  · rcases mem_join hmem with hsep | ⟨text, htext, hchar⟩
    · exact absurd hsep (by decide)
    · obtain ⟨type, htype, rfl⟩ := List.mem_map.mp ((mem_sortTexts _ _).mp htext)
      exact (h type htype).2.1 hchar

/-! ## Conditions -/

namespace TriggerCondition

mutual

/-- A property of the condition and of all conditions inside it. -/
def Everywhere (P : TriggerCondition → Prop) : TriggerCondition → Prop
  | composite logic children => P (composite logic children) ∧ EverywhereIn P children
  | cond => P cond

def EverywhereIn (P : TriggerCondition → Prop) : List TriggerCondition → Prop
  | [] => True
  | child :: rest => Everywhere P child ∧ EverywhereIn P rest

end

theorem everywhereIn_iff (P : TriggerCondition → Prop) (children : List TriggerCondition) :
    EverywhereIn P children ↔ ∀ child ∈ children, Everywhere P child := by
  induction children with
  | nil => simp [EverywhereIn]
  | cons child rest ih => simp [EverywhereIn, ih]

/-- Task ids as their constructors make them, and filters without floats. -/
def AdmissibleHere : TriggerCondition → Prop
  | status cond => cond.taskId.Valid ∧ filterFloatFree cond.argumentFilter = true
  | event cond => filterFloatFree cond.payloadFilter = true
  | result cond => cond.taskId.Valid ∧ filterFloatFree cond.argumentFilter = true ∧
      ∀ value ∈ cond.resultFilter, value.floatFree = true
  | exception cond => cond.taskId.Valid ∧ filterFloatFree cond.argumentFilter = true
  | cron _ | composite _ _ => True

def Admissible (cond : TriggerCondition) : Prop :=
  cond.Everywhere AdmissibleHere

/-- The lists inside an id can be taken apart: no exception type contains a separator or
is called `any`, and no id of a child contains a comma. -/
def SeparableHere (codec : Codec) : TriggerCondition → Prop
  | exception cond => ∀ type ∈ cond.exceptionTypes, SeparableType type
  | composite _ children => ∀ child ∈ children, ',' ∉ idText codec child
  | _ => True

def Separable (codec : Codec) (cond : TriggerCondition) : Prop :=
  cond.Everywhere (SeparableHere codec)

end TriggerCondition

/-! ## Ids of conditions on a task -/

section Ids

variable {codec : Codec}

/-- The common shape of status, result and exception ids. -/
def conditionText (taskId : TaskId) (statuses : List InvocationStatus) (tail : List Char) :
    List Char :=
  "condition#".toList ++ taskId.toText.toList ++ '#' :: (statusesText statuses ++ '#' :: tail)

theorem conditionText_inj {t u : TaskId} (ht : t.Valid) (hu : u.Valid)
    {as bs : List InvocationStatus} {tail tail' : List Char} (htail : '#' ∉ tail)
    (htail' : '#' ∉ tail') (h : conditionText t as tail = conditionText u bs tail') :
    t = u ∧ (∀ status, status ∈ as ↔ status ∈ bs) ∧ tail = tail' := by
  unfold conditionText at h
  -- from the right: the tail, the statuses, and what is left is the task
  have hlast : ("condition#".toList ++ t.toText.toList ++ '#' :: statusesText as) ++ '#' :: tail =
      ("condition#".toList ++ u.toText.toList ++ '#' :: statusesText bs) ++ '#' :: tail' := by
    simpa using h
  obtain ⟨hfront, htails⟩ := append_cons_inj_right htail htail' hlast
  obtain ⟨htask, hstatuses⟩ := append_cons_inj_right (hash_notMem_statusesText as)
    (hash_notMem_statusesText bs) hfront
  exact ⟨TaskId.toText_inj ht hu (List.append_cancel_left htask), statusesText_inj hstatuses,
    htails⟩

theorem statusConditionId_eq (cond : StatusCondition) (tail : List Char) :
    statusConditionId codec cond ++ tail = conditionText cond.taskId cond.statuses
      (argumentFilterId codec cond.argumentFilter ++ tail) := by
  unfold statusConditionId conditionText statusesText
  have hhash : ∀ x y : List Char, x ++ '#' :: y = x ++ "#".toList ++ y := fun _ _ => by simp
  rw [hhash, hhash]
  simp only [List.append_assoc]

theorem idText_status (cond : StatusCondition) :
    TriggerCondition.idText codec (.status cond) =
      conditionText cond.taskId cond.statuses (argumentFilterId codec cond.argumentFilter) := by
  have heq := @statusConditionId_eq codec cond []
  rw [List.append_nil, List.append_nil] at heq
  rw [TriggerCondition.idText, heq]

theorem idText_result (cond : ResultCondition) :
    TriggerCondition.idText codec (.result cond) =
      conditionText cond.taskId [.success] (argumentFilterId codec cond.argumentFilter ++
        "_result_".toList ++ resultFilterId codec cond.resultFilter) := by
  rw [TriggerCondition.idText, resultConditionId, List.append_assoc, statusConditionId_eq, List.append_assoc]

theorem idText_exception (cond : ExceptionCondition) :
    TriggerCondition.idText codec (.exception cond) =
      conditionText cond.taskId [.failed] (argumentFilterId codec cond.argumentFilter ++
        "_exception_".toList ++ exceptionText cond.exceptionTypes) := by
  rw [TriggerCondition.idText, exceptionConditionId, List.append_assoc, statusConditionId_eq, List.append_assoc]

theorem hash_notMem_filter (hcodec : codec.Sound) (filter : Option Filter) :
    '#' ∉ argumentFilterId codec filter :=
  notMem_argumentFilterId hcodec filter (by decide)

theorem hash_notMem_resultTail (hcodec : codec.Sound) (cond : ResultCondition) :
    '#' ∉ argumentFilterId codec cond.argumentFilter ++ "_result_".toList ++
      resultFilterId codec cond.resultFilter := by
  have hfilter := hash_notMem_filter hcodec cond.argumentFilter
  have hresult := hash_notMem_resultFilterId hcodec cond.resultFilter
  simp [hfilter, hresult]

theorem hash_notMem_exceptionTail (hcodec : codec.Sound) {cond : ExceptionCondition}
    (h : ∀ type ∈ cond.exceptionTypes, SeparableType type) :
    '#' ∉ argumentFilterId codec cond.argumentFilter ++ "_exception_".toList ++
      exceptionText cond.exceptionTypes := by
  have hfilter := hash_notMem_filter hcodec cond.argumentFilter
  have htypes := hash_notMem_exceptionText h
  simp [hfilter, htypes]

/-- A filter id does not go on with another field. -/
theorem filter_ne_result (hcodec : codec.Sound) (filter filter' : Option Filter)
    (rest : List Char) :
    argumentFilterId codec filter ≠
      argumentFilterId codec filter' ++ "_result_".toList ++ rest := by
  intro h
  have hmem : 'u' ∈ argumentFilterId codec filter := by
    rw [h]
    simp
  exact notMem_argumentFilterId hcodec filter (by decide) hmem

theorem filter_ne_exception (hcodec : codec.Sound) (filter filter' : Option Filter)
    (rest : List Char) :
    argumentFilterId codec filter ≠
      argumentFilterId codec filter' ++ "_exception_".toList ++ rest := by
  intro h
  have hmem : 'x' ∈ argumentFilterId codec filter := by
    rw [h]
    simp
  exact notMem_argumentFilterId hcodec filter (by decide) hmem

/-- The letter `u` of `_result_` marks where the filter id ends. -/
theorem resultTail_inj (hcodec : codec.Sound) {f g : Option Filter} {rest rest' : List Char}
    (h : argumentFilterId codec f ++ "_result_".toList ++ rest =
      argumentFilterId codec g ++ "_result_".toList ++ rest') :
    argumentFilterId codec f = argumentFilterId codec g ∧ rest = rest' := by
  have hmark : (argumentFilterId codec f ++ "_res".toList) ++ 'u' :: ("lt_".toList ++ rest) =
      (argumentFilterId codec g ++ "_res".toList) ++ 'u' :: ("lt_".toList ++ rest') := by
    simpa using h
  have hfree : ∀ filter, 'u' ∉ argumentFilterId codec filter ++ "_res".toList := by
    intro filter
    have hfilter := notMem_argumentFilterId hcodec filter (c := 'u') (by decide)
    simp [hfilter]
  obtain ⟨hfilters, hrests⟩ := append_cons_inj_left (hfree f) (hfree g) hmark
  exact ⟨List.append_cancel_right hfilters, List.append_cancel_left hrests⟩

/-- The letter `x` of `_exception_` marks where the filter id ends. -/
theorem exceptionTail_inj (hcodec : codec.Sound) {f g : Option Filter} {rest rest' : List Char}
    (h : argumentFilterId codec f ++ "_exception_".toList ++ rest =
      argumentFilterId codec g ++ "_exception_".toList ++ rest') :
    argumentFilterId codec f = argumentFilterId codec g ∧ rest = rest' := by
  have hmark : (argumentFilterId codec f ++ "_e".toList) ++ 'x' :: ("ception_".toList ++ rest) =
      (argumentFilterId codec g ++ "_e".toList) ++ 'x' :: ("ception_".toList ++ rest') := by
    simpa using h
  have hfree : ∀ filter, 'x' ∉ argumentFilterId codec filter ++ "_e".toList := by
    intro filter
    have hfilter := notMem_argumentFilterId hcodec filter (c := 'x') (by decide)
    simp [hfilter]
  obtain ⟨hfilters, hrests⟩ := append_cons_inj_left (hfree f) (hfree g) hmark
  exact ⟨List.append_cancel_right hfilters, List.append_cancel_left hrests⟩

/-! ## Equal ids -/

/-- How the ids of the kinds of condition start. -/
def idTag : TriggerCondition → List Char
  | .cron _ => "cro".toList
  | .event _ => "eve".toList
  | .composite _ _ => "com".toList
  | .status _ | .result _ | .exception _ => "con".toList

theorem take_idText (cond : TriggerCondition) : (cond.idText codec).take 3 = idTag cond := by
  cases cond with
  | cron cond => rfl
  | status cond =>
      rw [idText_status]
      rfl
  | event cond => rfl
  | result cond =>
      rw [idText_result]
      rfl
  | exception cond =>
      rw [idText_exception]
      rfl
  | composite logic children => rfl

/-- One id, one meaning. -/
def SameMeaning (codec : Codec) (a b : TriggerCondition) : Prop :=
  ∀ ctx, a.isSatisfiedBy codec ctx = b.isSatisfiedBy codec ctx

theorem sameMeaning_status (hcodec : codec.Sound) {a b : StatusCondition}
    (ha : (TriggerCondition.status a).AdmissibleHere)
    (hb : (TriggerCondition.status b).AdmissibleHere)
    (h : TriggerCondition.idText codec (.status a) = TriggerCondition.idText codec (.status b)) :
    SameMeaning codec (.status a) (.status b) := by
  rw [idText_status, idText_status] at h
  obtain ⟨htask, hstatuses, htail⟩ := conditionText_inj ha.1 hb.1 (hash_notMem_filter hcodec _)
    (hash_notMem_filter hcodec _) h
  have hfilter := argumentFilterId_inj hcodec ha.2 hb.2 htail
  intro ctx
  cases ctx <;> simp only [TriggerCondition.isSatisfiedBy]
  rw [htask, checkArgumentFilter_congr hfilter]
  simp only [hstatuses]

theorem sameMeaning_result (hcodec : codec.Sound) {a b : ResultCondition}
    (ha : (TriggerCondition.result a).AdmissibleHere)
    (hb : (TriggerCondition.result b).AdmissibleHere)
    (h : TriggerCondition.idText codec (.result a) = TriggerCondition.idText codec (.result b)) :
    SameMeaning codec (.result a) (.result b) := by
  rw [idText_result, idText_result] at h
  obtain ⟨htask, _, htail⟩ := conditionText_inj ha.1 hb.1 (hash_notMem_resultTail hcodec a)
    (hash_notMem_resultTail hcodec b) h
  obtain ⟨hfilters, hresults⟩ := resultTail_inj hcodec htail
  have hfilter := argumentFilterId_inj hcodec ha.2.1 hb.2.1 hfilters
  have hresult := resultFilterId_inj hcodec ha.2.2 hb.2.2 hresults
  intro ctx
  cases ctx <;> simp only [TriggerCondition.isSatisfiedBy]
  rw [htask, hresult, checkArgumentFilter_congr hfilter]

theorem sameMeaning_exception (hcodec : codec.Sound) {a b : ExceptionCondition}
    (ha : (TriggerCondition.exception a).AdmissibleHere)
    (hb : (TriggerCondition.exception b).AdmissibleHere)
    (hsa : ∀ type ∈ a.exceptionTypes, SeparableType type)
    (hsb : ∀ type ∈ b.exceptionTypes, SeparableType type)
    (h : TriggerCondition.idText codec (.exception a) =
      TriggerCondition.idText codec (.exception b)) :
    SameMeaning codec (.exception a) (.exception b) := by
  rw [idText_exception, idText_exception] at h
  obtain ⟨htask, _, htail⟩ := conditionText_inj ha.1 hb.1 (hash_notMem_exceptionTail hcodec hsa)
    (hash_notMem_exceptionTail hcodec hsb) h
  obtain ⟨hfilters, htypes⟩ := exceptionTail_inj hcodec htail
  have hfilter := argumentFilterId_inj hcodec ha.2 hb.2 hfilters
  intro ctx
  cases ctx <;> simp only [TriggerCondition.isSatisfiedBy]
  rw [htask, exceptionText_inj hsa hsb htypes, checkArgumentFilter_congr hfilter]

theorem sameMeaning_event (hcodec : codec.Sound) {a b : EventCondition}
    (ha : (TriggerCondition.event a).AdmissibleHere)
    (hb : (TriggerCondition.event b).AdmissibleHere)
    (h : TriggerCondition.idText codec (.event a) = TriggerCondition.idText codec (.event b)) :
    SameMeaning codec (.event a) (.event b) := by
  rw [TriggerCondition.idText, TriggerCondition.idText] at h
  unfold eventConditionId at h
  have hlast : ("event#".toList ++ a.eventCode.toList) ++
      '#' :: argumentFilterId codec a.payloadFilter =
        ("event#".toList ++ b.eventCode.toList) ++ '#' :: argumentFilterId codec b.payloadFilter := by
    simpa using h
  obtain ⟨hcodes, hfilters⟩ := append_cons_inj_right (hash_notMem_filter hcodec a.payloadFilter)
    (hash_notMem_filter hcodec b.payloadFilter) hlast
  have hcode : a.eventCode = b.eventCode :=
    String.toList_inj.mp (List.append_cancel_left hcodes)
  have hfilter := argumentFilterId_inj hcodec ha hb hfilters
  intro ctx
  cases ctx <;> simp only [TriggerCondition.isSatisfiedBy]
  rw [hcode, checkPayloadFilter_congr hfilter]

/-- The children of two composites with one id have the same ids. -/
theorem compositeConditionId_inj {logic logic' : CompositeLogic} {as bs : List (List Char)}
    (ha : ∀ text ∈ as, ',' ∉ text ∧ text ≠ []) (hb : ∀ text ∈ bs, ',' ∉ text ∧ text ≠ [])
    (h : compositeConditionId logic as = compositeConditionId logic' bs) :
    logic = logic' ∧ ∀ text, text ∈ as ↔ text ∈ bs := by
  have hjoin : logic = logic' ∧ join ',' (sortTexts as) = join ',' (sortTexts bs) := by
    unfold compositeConditionId at h
    cases logic <;> cases logic' <;> simp [CompositeLogic.asStr] at h
    · exact ⟨rfl, h⟩
    · exact ⟨rfl, h⟩
  refine ⟨hjoin.1, ?_⟩
  have hempty : ∀ {texts : List (List Char)}, (∀ text ∈ texts, ',' ∉ text ∧ text ≠ []) →
      join ',' (sortTexts texts) = [] → texts = [] := by
    intro texts htexts hnil
    by_contra hne
    obtain ⟨head, tail, rfl⟩ := List.exists_cons_of_ne_nil hne
    have hsingle : join ',' (sortTexts (head :: tail)) = join ',' (sortTexts [[]]) := by
      rw [hnil]
      rfl
    have hmem := joinSorted_inj (fun text ht => (htexts text ht).1) (by simp) (by simp) (by simp)
      hsingle head
    exact (htexts head (by simp)).2 (by simpa using hmem)
  by_cases hnila : as = []
  · have hnilb : bs = [] := hempty hb (by rw [← hjoin.2, hnila]; rfl)
    simp [hnila, hnilb]
  · by_cases hnilb : bs = []
    · exact absurd (hempty ha (by rw [hjoin.2, hnilb]; rfl)) hnila
    · exact joinSorted_inj (fun text ht => (ha text ht).1) (fun text ht => (hb text ht).1) hnila
        hnilb hjoin.2

theorem idText_ne_nil (cond : TriggerCondition) : cond.idText codec ≠ [] := by
  intro hnil
  have htag := @take_idText codec cond
  rw [hnil] at htag
  cases cond <;> simp [idTag] at htag

theorem status_ne_result (hcodec : codec.Sound) {a : StatusCondition} {b : ResultCondition}
    (ha : (TriggerCondition.status a).AdmissibleHere)
    (hb : (TriggerCondition.result b).AdmissibleHere) :
    TriggerCondition.idText codec (.status a) ≠ TriggerCondition.idText codec (.result b) := by
  intro h
  rw [idText_status, idText_result] at h
  obtain ⟨_, _, htail⟩ := conditionText_inj ha.1 hb.1 (hash_notMem_filter hcodec _)
    (hash_notMem_resultTail hcodec b) h
  exact filter_ne_result hcodec _ _ _ htail

theorem status_ne_exception (hcodec : codec.Sound) {a : StatusCondition} {b : ExceptionCondition}
    (ha : (TriggerCondition.status a).AdmissibleHere)
    (hb : (TriggerCondition.exception b).AdmissibleHere)
    (hsb : ∀ type ∈ b.exceptionTypes, SeparableType type) :
    TriggerCondition.idText codec (.status a) ≠ TriggerCondition.idText codec (.exception b) := by
  intro h
  rw [idText_status, idText_exception] at h
  obtain ⟨_, _, htail⟩ := conditionText_inj ha.1 hb.1 (hash_notMem_filter hcodec _)
    (hash_notMem_exceptionTail hcodec hsb) h
  exact filter_ne_exception hcodec _ _ _ htail

/-- Results are written with success, exceptions with failure. -/
theorem result_ne_exception (hcodec : codec.Sound) {a : ResultCondition} {b : ExceptionCondition}
    (ha : (TriggerCondition.result a).AdmissibleHere)
    (hb : (TriggerCondition.exception b).AdmissibleHere)
    (hsb : ∀ type ∈ b.exceptionTypes, SeparableType type) :
    TriggerCondition.idText codec (.result a) ≠ TriggerCondition.idText codec (.exception b) := by
  intro h
  rw [idText_result, idText_exception] at h
  obtain ⟨_, hstatuses, _⟩ := conditionText_inj ha.1 hb.1 (hash_notMem_resultTail hcodec a)
    (hash_notMem_exceptionTail hcodec hsb) h
  exact absurd (hstatuses .success) (by decide)

/-- Composites whose children agree id by id. -/
theorem sameMeaning_composite {logic : CompositeLogic} {as bs : List TriggerCondition}
    (hto : ∀ a ∈ as, ∃ b ∈ bs, SameMeaning codec a b)
    (hfrom : ∀ b ∈ bs, ∃ a ∈ as, SameMeaning codec a b) :
    SameMeaning codec (.composite logic as) (.composite logic bs) := by
  intro ctx
  cases logic with
  | and =>
      change TriggerCondition.allSatisfied codec as ctx = TriggerCondition.allSatisfied codec bs ctx
      rw [Bool.eq_iff_iff, TriggerCondition.allSatisfied_iff, TriggerCondition.allSatisfied_iff]
      constructor
      · intro hall b hb
        obtain ⟨a, ha, hsame⟩ := hfrom b hb
        rw [← hsame ctx]
        exact hall a ha
      · intro hall a ha
        obtain ⟨b, hb, hsame⟩ := hto a ha
        rw [hsame ctx]
        exact hall b hb
  | or =>
      change TriggerCondition.anySatisfied codec as ctx = TriggerCondition.anySatisfied codec bs ctx
      rw [Bool.eq_iff_iff, TriggerCondition.anySatisfied_iff, TriggerCondition.anySatisfied_iff]
      constructor
      · rintro ⟨a, ha, hsat⟩
        obtain ⟨b, hb, hsame⟩ := hto a ha
        exact ⟨b, hb, (hsame ctx).symm.trans hsat⟩
      · rintro ⟨b, hb, hsat⟩
        obtain ⟨a, ha, hsame⟩ := hfrom b hb
        exact ⟨a, ha, (hsame ctx).trans hsat⟩

theorem sameMeaning_of_idText_eq (hcodec : codec.Sound) (a : TriggerCondition) :
    ∀ b : TriggerCondition, a.Admissible → b.Admissible → a.Separable codec →
      b.Separable codec → a.idText codec = b.idText codec → SameMeaning codec a b := by
  induction a using TriggerCondition.induction with
  | hcron a =>
      intro b _ _ _ _ h
      have htag := congrArg (List.take 3) h
      rw [take_idText, take_idText] at htag
      cases b with
      | cron b => exact fun ctx => by cases ctx <;> rfl
      | _ => simp [idTag] at htag
  | hstatus a =>
      intro b ha hb _ hsb h
      have htag := congrArg (List.take 3) h
      rw [take_idText, take_idText] at htag
      cases b with
      | status b => exact sameMeaning_status hcodec ha hb h
      | result b => exact absurd h (status_ne_result hcodec ha hb)
      | exception b => exact absurd h (status_ne_exception hcodec ha hb hsb)
      | _ => simp [idTag] at htag
  | hevent a =>
      intro b ha hb _ _ h
      have htag := congrArg (List.take 3) h
      rw [take_idText, take_idText] at htag
      cases b with
      | event b => exact sameMeaning_event hcodec ha hb h
      | _ => simp [idTag] at htag
  | hresult a =>
      intro b ha hb _ hsb h
      have htag := congrArg (List.take 3) h
      rw [take_idText, take_idText] at htag
      cases b with
      | status b => exact absurd h.symm (status_ne_result hcodec hb ha)
      | result b => exact sameMeaning_result hcodec ha hb h
      | exception b => exact absurd h (result_ne_exception hcodec ha hb hsb)
      | _ => simp [idTag] at htag
  | hexception a =>
      intro b ha hb hsa hsb h
      have htag := congrArg (List.take 3) h
      rw [take_idText, take_idText] at htag
      cases b with
      | status b => exact absurd h.symm (status_ne_exception hcodec hb ha hsa)
      | result b => exact absurd h.symm (result_ne_exception hcodec hb ha hsa)
      | exception b => exact sameMeaning_exception hcodec ha hb hsa hsb h
      | _ => simp [idTag] at htag
  | hcomposite logic as ih =>
      intro b ha hb hsa hsb h
      have htag := congrArg (List.take 3) h
      rw [take_idText, take_idText] at htag
      cases b with
      | composite logic' bs =>
          rw [TriggerCondition.idText, TriggerCondition.idText,
            TriggerCondition.childTexts_eq, TriggerCondition.childTexts_eq] at h
          have hin := (TriggerCondition.everywhereIn_iff _ as).mp ha.2
          have hin' := (TriggerCondition.everywhereIn_iff _ bs).mp hb.2
          have hsep := (TriggerCondition.everywhereIn_iff _ as).mp hsa.2
          have hsep' := (TriggerCondition.everywhereIn_iff _ bs).mp hsb.2
          have htexts : ∀ {cs : List TriggerCondition},
              (∀ child ∈ cs, ',' ∉ child.idText codec) →
              ∀ text ∈ cs.map (TriggerCondition.idText codec), ',' ∉ text ∧ text ≠ [] := by
            intro cs hcs text htext
            obtain ⟨child, hchild, rfl⟩ := List.mem_map.mp htext
            exact ⟨hcs child hchild, idText_ne_nil child⟩
          obtain ⟨rfl, hids⟩ := compositeConditionId_inj (htexts hsa.1) (htexts hsb.1) h
          refine sameMeaning_composite ?_ ?_
          · intro child hchild
            obtain ⟨other, hother, heq⟩ :=
              List.mem_map.mp ((hids _).mp (List.mem_map_of_mem hchild))
            exact ⟨other, hother, ih child hchild other (hin child hchild) (hin' other hother)
              (hsep child hchild) (hsep' other hother) heq.symm⟩
          · intro other hother
            obtain ⟨child, hchild, heq⟩ :=
              List.mem_map.mp ((hids _).mpr (List.mem_map_of_mem hother))
            exact ⟨child, hchild, ih child hchild other (hin child hchild) (hin' other hother)
              (hsep child hchild) (hsep' other hother) heq⟩
      | _ => simp [idTag] at htag

/-- Separable conditions with one id are satisfied by the same contexts; of a cron
condition the id determines the expression and nothing else. -/
theorem isSatisfiedBy_eq_of_conditionId_eq (hcodec : codec.Sound) {a b : TriggerCondition}
    (ha : a.Admissible) (hb : b.Admissible) (hsa : a.Separable codec) (hsb : b.Separable codec)
    (h : a.conditionId codec = b.conditionId codec) :
    (∀ ctx, a.isSatisfiedBy codec ctx = b.isSatisfiedBy codec ctx) ∧
      ∀ c d, a = .cron c → b = .cron d → c.cronExpression = d.cronExpression := by
  have htexts : a.idText codec = b.idText codec := congrArg ConditionId.raw h
  refine ⟨sameMeaning_of_idText_eq hcodec a b ha hb hsa hsb htexts, ?_⟩
  rintro c d rfl rfl
  rw [TriggerCondition.idText, TriggerCondition.idText] at htexts
  unfold cronConditionId at htexts
  exact String.toList_inj.mp (List.append_cancel_left htexts)

end Ids

/-! ## A codec to compute with -/

/-- A collision-free text of hexadecimal digits, for texts whose digest is not needed. -/
def unaryText (text : List Char) : List Char :=
  text.flatMap fun c => List.replicate c.toNat '0' ++ ['1']

theorem unaryText_injective : Function.Injective unaryText := by
  intro as
  induction as with
  | nil =>
      intro bs h
      cases bs with
      | nil => rfl
      | cons b bs => simp [unaryText] at h
  | cons a as ih =>
      intro bs h
      cases bs with
      | nil => simp [unaryText] at h
      | cons b bs =>
          have hblocks : List.replicate a.toNat '0' ++ '1' :: unaryText as =
              List.replicate b.toNat '0' ++ '1' :: unaryText bs := by
            simpa [unaryText] using h
          have hfree : ∀ n : Nat, '1' ∉ List.replicate n '0' := by
            intro n hmem
            exact absurd (List.eq_of_mem_replicate hmem) (by decide)
          obtain ⟨hcode, hrest⟩ := append_cons_inj_left (hfree _) (hfree _) hblocks
          have hlength : a.toNat = b.toNat := by simpa using congrArg List.length hcode
          rw [Char.toNat_inj.mp hlength, ih hrest]

theorem unaryText_hex (text : List Char) : ∀ c ∈ unaryText text, c ∈ hexDigits := by
  intro c hc
  obtain ⟨x, _, hx⟩ := List.mem_flatMap.mp hc
  rcases List.mem_append.mp hx with hx | hx
  · rw [List.eq_of_mem_replicate hx]
    decide
  · rw [List.mem_singleton.mp hx]
    decide

/-- The text of the context of event `e-1`, and its SHA-256. -/
def sampleInput : List Char :=
  "event_ctx:e-1".toList

def sampleDigest : List Char :=
  "c4c955ee413f9952f93377cdfbdd1d1786b6a3cb1ff4722560f4ce6b5cd476cf".toList

theorem sampleDigest_head : sampleDigest.head? ≠ some 'f' := by
  decide

theorem sampleDigest_hex : ∀ c ∈ sampleDigest, c ∈ hexDigits := by
  have hall : sampleDigest.all (hexDigits.contains ·) = true := by decide
  intro c hc
  exact List.contains_iff_mem.mp (List.all_eq_true.mp hall c hc)

def plainCodec : Codec where
  sha256Hex text := if text = sampleInput then sampleDigest else 'f' :: unaryText text
  parseJson _ := none
  jsonText _ := []
  floatText _ := []
  rfc3339 instant := decimal instant
  triggerRunInvocationId text := ⟨String.ofList text⟩

/-- A codec with a true digest where the examples need one. -/
def sampleCodec : Codec :=
  { plainCodec with jsonText := valueToPythonJson plainCodec }

theorem sampleCodec_sound : sampleCodec.Sound where
  sha256Hex_injective := by
    intro a b h
    simp only [sampleCodec, plainCodec] at h
    split at h <;> split at h
    · rename_i ha hb
      rw [ha, hb]
    · exact absurd (congrArg List.head? h) sampleDigest_head
    · exact absurd (congrArg List.head? h.symm) sampleDigest_head
    · exact unaryText_injective (List.cons.inj h).2
  sha256Hex_hex := by
    intro text c hc
    simp only [sampleCodec, plainCodec] at hc
    split at hc
    · exact sampleDigest_hex c hc
    · rcases List.mem_cons.mp hc with rfl | hc
      · decide
      · exact unaryText_hex text c hc
  jsonText_injective := by
    intro a b ha hb h
    exact (valueToPythonJson_inj plainCodec a b [] [] ha hb closed_nil closed_nil
      (by simpa [sampleCodec] using h)).1

/-- Failures of a task with one of two errors. -/
def onErrors (filter : Option Filter) : TriggerCondition :=
  .exception ⟨⟨.rust, "billing", "charge"⟩, ["ValueError", "KeyError"], filter⟩

def keyErrorContext : ConditionContext :=
  .exception ⟨⟨"inv-1"⟩, ⟨.rust, "billing", "charge"⟩, "KeyError", "no such key", .empty⟩

theorem isSatisfiedBy_eq_onErrors :
    (onErrors none).isSatisfiedBy sampleCodec keyErrorContext =
      (onErrors (some [])).isSatisfiedBy sampleCodec keyErrorContext := by
  have hadmissible : ∀ filter, filterFloatFree filter = true → (onErrors filter).Admissible := by
    intro filter hfilter
    have hvalid : TaskId.Valid ⟨.rust, "billing", "charge"⟩ := by decide
    exact ⟨hvalid, hfilter⟩
  have hseparable : ∀ filter, (onErrors filter).Separable sampleCodec := by
    intro filter
    have htypes : ∀ type ∈ ["ValueError", "KeyError"], SeparableType type := by decide
    exact htypes
  exact (isSatisfiedBy_eq_of_conditionId_eq sampleCodec_sound (hadmissible none rfl)
    (hadmissible (some []) rfl) (hseparable none) (hseparable _) rfl).1 keyErrorContext

/-! ## Collisions -/

def onEvent (eventCode : String) : TriggerCondition :=
  .event ⟨eventCode, none⟩

/-- `a` alone, or `b`. -/
def eitherEvent : TriggerCondition :=
  .composite .or [.composite .and [onEvent "a"], onEvent "b"]

/-- `a` and `b` at once. -/
def bothEvents : TriggerCondition :=
  .composite .or [.composite .and [onEvent "a", onEvent "b"]]

def everyMinute (minIntervalSeconds : Nat) : TriggerCondition :=
  .cron ⟨"* * * * *", minIntervalSeconds⟩

/-- Nested composites are written without brackets, and the interval of a cron condition
is not written at all. -/
theorem conditionId_collides :
    (eitherEvent.Admissible ∧ bothEvents.Admissible ∧
      eitherEvent.conditionId sampleCodec = bothEvents.conditionId sampleCodec ∧
      eitherEvent.isSatisfiedBy sampleCodec (.event ⟨"e-1", "b", .null⟩) = true ∧
      bothEvents.isSatisfiedBy sampleCodec (.event ⟨"e-1", "b", .null⟩) = false) ∧
    (everyMinute 50).conditionId sampleCodec = (everyMinute 3600).conditionId sampleCodec ∧
      ¬ ∀ c d, everyMinute 50 = .cron c → everyMinute 3600 = .cron d →
        c.minIntervalSeconds = d.minIntervalSeconds := by
  refine ⟨⟨?_, ?_, by decide, by decide, by decide⟩, by decide, ?_⟩
  · exact ⟨trivial, ⟨trivial, rfl, trivial⟩, rfl, trivial⟩
  · exact ⟨trivial, ⟨trivial, rfl, rfl, trivial⟩, trivial⟩
  · intro h
    exact absurd (h _ _ rfl rfl) (by decide)

end Rustvello.Proto
