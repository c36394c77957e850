import Rustvello.Proto.ConditionIdentity
import Rustvello.Text.Search

/-!
# The text form of task and call identifiers

`identifiers.rs` keeps module and name of a task in one text with a byte offset, and reads
identifiers back from the text that `Display` writes.

* `Packed.TaskId`, `Packed.CallId` — the identifiers as the source stores them;
* `tryForLanguage`, `TaskId.fromStr`, `CallId.fromStr` — the constructors, with their
  errors;
* `Built` — what some constructor returns;
* `identifiers_round_trip` — both identifiers survive their text form.

`debug` is the quoted form of a text in error messages (`{:?}`).
-/

namespace Rustvello.Proto.Packed

open Text

/-! ## Identifiers -/

/-- A task: module and name without a separator, and the byte offset between them, which
is the end of a letter. -/
structure TaskId where
  language : TaskLanguage
  packed : List Char
  moduleEnd : UInt16
  boundary : ∃ front back, packed = front ++ back ∧ bytes front = moduleEnd.toNat
deriving DecidableEq

def TaskId.module (t : TaskId) : List Char :=
  takeBytes t.moduleEnd.toNat t.packed

def TaskId.name (t : TaskId) : List Char :=
  dropBytes t.moduleEnd.toNat t.packed

/-- `Display`: `language::module.name`. -/
def TaskId.display (t : TaskId) : List Char :=
  t.language.asStr.toList ++ [':', ':'] ++ t.module ++ '.' :: t.name

/-- A task with the digest of its arguments. -/
structure CallId where
  taskId : TaskId
  argsId : List Char
deriving DecidableEq

/-- `Display`: `task_id:args_id`. -/
def CallId.display (c : CallId) : List Char :=
  c.taskId.display ++ ':' :: c.argsId

/-! ## Errors -/

structure ParseTaskIdError where
  message : String
deriving DecidableEq, Repr

inductive ParseCallIdError where
  | format (message : String)
  | taskId (e : ParseTaskIdError)
deriving DecidableEq, Repr

def ParseCallIdError.toText : ParseCallIdError → String
  | format message => message
  | taskId e => "invalid task_id in call ID: " ++ e.message

/-- How a constructor fails: with an error or with a panic. -/
inductive Failure (ε : Type) where
  | error (e : ε)
  | panicked (message : String)
deriving DecidableEq, Repr

abbrev Fallible (ε : Type) :=
  Except (Failure ε)

/-- `map_err`: panics pass. -/
def Failure.mapError {ε ε' α : Type} (f : ε → ε') : Fallible ε α → Fallible ε' α
  | .ok a => .ok a
  | .error (.error e) => .error (.error (f e))
  | .error (.panicked message) => .error (.panicked message)

/-! ## Constructors -/

section Constructors

variable (debug : List Char → String)

/-- No validation; the offset has sixteen bits. -/
def TaskId.fromParts (language : TaskLanguage) (module name : List Char) :
    Fallible ParseTaskIdError TaskId :=
  if h : bytes module ≤ 65535 then
    .ok {
      language
      packed := module ++ name
      moduleEnd := UInt16.ofNat (bytes module)
      boundary := ⟨module, name, rfl, by simp; omega⟩ }
  else
    .error (.panicked ("TaskId module exceeds u16::MAX bytes (" ++
      toString (bytes module) ++ " bytes)"))

def TaskId.tryForLanguage (language : TaskLanguage) (module name : List Char) :
    Fallible ParseTaskIdError TaskId :=
  if name = [] then .error (.error ⟨"TaskId name must not be empty"⟩)
  else if '.' ∈ name ∨ [':', ':'] <:+: name then
    .error (.error ⟨"TaskId name must not contain '.' or '::': " ++ debug name⟩)
  else if module = [] then .error (.error ⟨"TaskId module must not be empty"⟩)
  else if [':', ':'] <:+: module then
    .error (.error ⟨"TaskId module must not contain '::': " ++ debug module⟩)
  else TaskId.fromParts language module name

def TaskId.tryNew (module name : List Char) : Fallible ParseTaskIdError TaskId :=
  TaskId.tryForLanguage debug .rust module name

/-- An error is a panic here. -/
def TaskId.forLanguage (language : TaskLanguage) (module name : List Char) :
    Fallible Empty TaskId :=
  match TaskId.tryForLanguage debug language module name with
  | .ok t => .ok t
  | .error (.error e) => .error (.panicked e.message)
  | .error (.panicked message) => .error (.panicked message)

def TaskId.new (module name : List Char) : Fallible Empty TaskId :=
  TaskId.forLanguage debug .rust module name

/-- From the fields of a serialized task; an absent language is Rust. -/
def TaskId.deserialize (language : Option TaskLanguage) (module name : List Char) :
    Fallible ParseTaskIdError TaskId :=
  TaskId.tryForLanguage debug (language.getD .rust) module name

def languageFromStr (value : List Char) : Fallible ParseTaskIdError TaskLanguage :=
  if value = "rust".toList ∨ value = "Rust".toList then .ok .rust
  else if value = "python".toList ∨ value = "Python".toList then .ok .python
  else .error (.error ⟨"unsupported task language " ++ debug value ++
    "; supported languages are rust and python"⟩)

/-- The language prefix, if there is one, and the rest. -/
def splitLanguage (s : List Char) :
    Fallible ParseTaskIdError (TaskLanguage × List Char) :=
  match splitFirst [':', ':'] s with
  | none => .ok (.rust, s)
  | some (lang, rest) =>
      if lang = [] then .error (.error ⟨"empty language before '::'"⟩)
      else (languageFromStr debug lang).map fun language => (language, rest)

def TaskId.fromStr (s : List Char) : Fallible ParseTaskIdError TaskId :=
  if s = [] then .error (.error ⟨"empty task ID string"⟩)
  else do
    let (language, rest) ← splitLanguage debug s
    match splitLast '.' rest with
    | none => .error (.error ⟨"no '.' separator in task ID: " ++ debug s⟩)
    | some (module, name) =>
        if module = [] then .error (.error ⟨"empty module in task ID: " ++ debug s⟩)
        else if name = [] then .error (.error ⟨"empty name in task ID: " ++ debug s⟩)
        else TaskId.tryForLanguage debug language module name

/-- The assertion is compiled into debug builds only. -/
def CallId.new {ε : Type} (debugAssertions : Bool) (taskId : TaskId) (argsId : List Char) :
    Fallible ε CallId :=
  if debugAssertions && decide (':' ∈ argsId) then
    .error (.panicked ("CallId args_id must not contain ':' " ++
      "(breaks Display/FromStr round-trip): " ++ debug argsId))
  else .ok ⟨taskId, argsId⟩

def CallId.fromStr (debugAssertions : Bool) (s : List Char) : Fallible ParseCallIdError CallId :=
  match splitLast ':' s with
  | none => .error (.error (.format ("no ':' separator in call ID: " ++ debug s)))
  | some (taskStr, argsId) =>
      if argsId = [] then .error (.error (.format ("empty args_id in call ID: " ++ debug s)))
      else do
        let taskId ← Failure.mapError .taskId (TaskId.fromStr debug taskStr)
        CallId.new debug debugAssertions taskId argsId

/-- What some constructor returns. -/
inductive Built : TaskId → Prop
  | tryForLanguage {language module name t} :
      TaskId.tryForLanguage debug language module name = .ok t → Built t
  | tryNew {module name t} : TaskId.tryNew debug module name = .ok t → Built t
  | forLanguage {language module name t} :
      TaskId.forLanguage debug language module name = .ok t → Built t
  | new {module name t} : TaskId.new debug module name = .ok t → Built t
  | deserialize {language module name t} :
      TaskId.deserialize debug language module name = .ok t → Built t
  | fromStr {s t} : TaskId.fromStr debug s = .ok t → Built t

end Constructors

/-! ## What the constructors return -/

section Returned

variable {debug : List Char → String} {language : TaskLanguage} {module name s : List Char}
  {t t' : TaskId} {c c' : CallId}

theorem fromParts_ok (h : TaskId.fromParts language module name = .ok t) :
    t.language = language ∧ t.module = module ∧ t.name = name := by
  unfold TaskId.fromParts at h
  split at h
  · rename_i hfits
    have hoffset : (UInt16.ofNat (bytes module)).toNat = bytes module := by
      rw [UInt16.toNat_ofNat']
      omega
    have ht := Except.ok.inj h
    subst ht
    refine ⟨rfl, ?_, ?_⟩
    · show takeBytes (UInt16.ofNat (bytes module)).toNat (module ++ name) = module
      rw [hoffset, takeBytes_append]
    · show dropBytes (UInt16.ofNat (bytes module)).toNat (module ++ name) = name
      rw [hoffset, dropBytes_append]
  · cases h

/-- A constructor that returns has checked the parts. -/
theorem tryForLanguage_ok (h : TaskId.tryForLanguage debug language module name = .ok t) :
    (name ≠ [] ∧ '.' ∉ name ∧ module ≠ []) ∧
      t.language = language ∧ t.module = module ∧ t.name = name := by
  unfold TaskId.tryForLanguage at h
  split at h
  · cases h
  rename_i hname
  split at h
  · cases h
  rename_i hdot
  split at h
  · cases h
  rename_i hmodule
  split at h
  · cases h
  exact ⟨⟨hname, fun hmem => hdot (.inl hmem), hmodule⟩, fromParts_ok h⟩

/-- The value is what the constructor makes of its own parts. -/
theorem tryForLanguage_parts (h : TaskId.tryForLanguage debug language module name = .ok t) :
    TaskId.tryForLanguage debug t.language t.module t.name = .ok t := by
  obtain ⟨-, rfl, rfl, rfl⟩ := tryForLanguage_ok h
  exact h

theorem fromStr_ok (h : TaskId.fromStr debug s = .ok t) :
    ∃ language module name, TaskId.tryForLanguage debug language module name = .ok t := by
  unfold TaskId.fromStr at h
  split at h
  · cases h
  cases hlanguage : splitLanguage debug s with
  | error e =>
      rw [hlanguage] at h
      cases h
  | ok parts =>
      obtain ⟨language, rest⟩ := parts
      rw [hlanguage] at h
      change (match splitLast '.' rest with
        | none => _
        | some (module, name) => _) = _ at h
      split at h
      · cases h
      split at h
      · cases h
      split at h
      · cases h
      exact ⟨_, _, _, h⟩

/-- Every constructor goes through the one that checks the parts. -/
theorem built_ok (h : Built debug t) :
    TaskId.tryForLanguage debug t.language t.module t.name = .ok t := by
  have hfor : ∀ {language module name},
      TaskId.forLanguage debug language module name = .ok t →
        TaskId.tryForLanguage debug language module name = .ok t := by
    intro language module name h
    unfold TaskId.forLanguage at h
    split at h
    · rename_i hok
      rw [hok, Except.ok.inj h]
    · cases h
    · cases h
  cases h with
  | tryForLanguage h => exact tryForLanguage_parts h
  | tryNew h => exact tryForLanguage_parts h
  | forLanguage h => exact tryForLanguage_parts (hfor h)
  | new h => exact tryForLanguage_parts (hfor h)
  | deserialize h => exact tryForLanguage_parts h
  | fromStr h =>
      obtain ⟨language, module, name, h⟩ := fromStr_ok h
      exact tryForLanguage_parts h

/-! ## Round trips -/

theorem splitLanguage_display (language : TaskLanguage) (rest : List Char) :
    splitLanguage debug (language.asStr.toList ++ [':', ':'] ++ rest) =
      .ok (language, rest) := by
  unfold splitLanguage
  cases language with
  | rust =>
      rw [splitFirst_append (by decide)]
      rfl
  | python =>
      rw [splitFirst_append (by decide)]
      rfl

/-- The first mark ends the language and the last dot ends the module, whatever the module
contains. -/
theorem fromStr_display (h : Built debug t) : TaskId.fromStr debug t.display = .ok t := by
  have hbuilt := built_ok h
  obtain ⟨⟨hname, hdot, hmodule⟩, -⟩ := tryForLanguage_ok hbuilt
  have hne : t.display ≠ [] := by simp [TaskId.display]
  have hlanguage : splitLanguage debug t.display = .ok (t.language, t.module ++ '.' :: t.name) := by
    have hshape : t.display =
        t.language.asStr.toList ++ [':', ':'] ++ (t.module ++ '.' :: t.name) := by
      simp [TaskId.display]
    rw [hshape, splitLanguage_display]
  unfold TaskId.fromStr
  rw [if_neg hne, hlanguage]
  show (match splitLast '.' (t.module ++ '.' :: t.name) with
    | none => _
    | some (module, name) => _) = _
  rw [splitLast_append hdot]
  show (if t.module = [] then _ else if t.name = [] then _ else _) = _
  rw [if_neg hmodule, if_neg hname, hbuilt]

theorem new_of_notMem {ε : Type} {debugAssertions : Bool} {argsId : List Char}
    (h : ':' ∉ argsId) :
    CallId.new debug debugAssertions t argsId = (.ok ⟨t, argsId⟩ : Fallible ε CallId) := by
  simp [CallId.new, h]

/-- The last colon starts the digest, whatever the task contains. -/
theorem callFromStr_display (debugAssertions : Bool) (h : Built debug c.taskId)
    (hne : c.argsId ≠ []) (hcolon : ':' ∉ c.argsId) :
    CallId.fromStr debug debugAssertions c.display = .ok c := by
  unfold CallId.fromStr CallId.display
  rw [splitLast_append hcolon]
  show (if c.argsId = [] then _ else _) = _
  rw [if_neg hne, fromStr_display h]
  exact new_of_notMem hcolon

/-- What is read has a task that a constructor returned, and a digest that can be written. -/
theorem callFromStr_ok {debugAssertions : Bool}
    (h : CallId.fromStr debug debugAssertions s = .ok c) :
    Built debug c.taskId ∧ c.argsId ≠ [] ∧ ':' ∉ c.argsId := by
  unfold CallId.fromStr at h
  split at h
  · cases h
  rename_i taskStr argsId hsplit
  split at h
  · cases h
  rename_i hne
  have hcolon := (of_splitLast hsplit).2
  cases htask : TaskId.fromStr debug taskStr with
  | error e =>
      rw [htask] at h
      cases e <;> cases h
  | ok taskId =>
      rw [htask] at h
      change CallId.new debug debugAssertions taskId argsId = .ok c at h
      simp only [CallId.new, hcolon, decide_false, Bool.and_false, Bool.false_eq_true,
        if_false, Except.ok.injEq] at h
      subst h
      exact ⟨.fromStr htask, hne, hcolon⟩

/-- Equal texts are read alike. -/
theorem display_inj (h : Built debug t) (h' : Built debug t') (heq : t.display = t'.display) :
    t = t' := by
  have hread := fromStr_display h
  rw [heq, fromStr_display h'] at hread
  exact (Except.ok.inj hread).symm

theorem callDisplay_inj (h : Built debug c.taskId) (hne : c.argsId ≠ []) (hcolon : ':' ∉ c.argsId)
    (h' : Built debug c'.taskId) (hne' : c'.argsId ≠ []) (hcolon' : ':' ∉ c'.argsId)
    (heq : c.display = c'.display) : c = c' := by
  have hread := callFromStr_display false h hne hcolon
  rw [heq, callFromStr_display false h' hne' hcolon'] at hread
  exact (Except.ok.inj hread).symm

/-! ## The record of the other modules -/

end Returned

/-! ## Digests of arguments -/

/-- `lower_hex`: two digits a byte. -/
def lowerHex (digest : List UInt8) : List Char :=
  digest.flatMap fun byte =>
    [SerializedArguments.hexDigit (byte.toNat / 16), SerializedArguments.hexDigit (byte.toNat % 16)]

theorem notMem_lowerHex {c : Char} (h : ∀ n < 16, c ≠ SerializedArguments.hexDigit n)
    (digest : List UInt8) : c ∉ lowerHex digest := by
  intro hmem
  obtain ⟨byte, -, hbyte⟩ := List.mem_flatMap.mp hmem
  have hlt := byte.toNat_lt
  simp only [List.mem_cons, List.not_mem_nil, or_false] at hbyte
  rcases hbyte with heq | heq
  · exact h _ (by omega) heq
  · exact h _ (by omega) heq

theorem colon_notMem_lowerHex (digest : List UInt8) : ':' ∉ lowerHex digest :=
  notMem_lowerHex (by decide) digest

theorem lowerHex_ne_nil {digest : List UInt8} (h : digest.length = 32) : lowerHex digest ≠ [] := by
  cases digest with
  | nil => cases h
  | cons byte rest => simp [lowerHex]

/-- A digest of arguments is not empty and has no colon. -/
theorem computeArgsId_readable {sha256 : List Char → List UInt8}
    (hsize : ∀ text, (sha256 text).length = 32) (args : SerializedArguments) :
    (args.computeArgsId fun text => String.ofList (lowerHex (sha256 text))).toList ≠ [] ∧
      ':' ∉ (args.computeArgsId fun text => String.ofList (lowerHex (sha256 text))).toList := by
  unfold SerializedArguments.computeArgsId
  split
  · decide
  · rw [String.toList_ofList]
    exact ⟨lowerHex_ne_nil (hsize _), colon_notMem_lowerHex _⟩

/-- **Identifiers survive their text form.**  What a constructor returns is read back from
its text, and so is a call with a digest of arguments; what is read from any text has a
canonical text that is read alike, and two of them are equal exactly when their canonical
texts are.  Different parts never share a text. -/
theorem identifiers_round_trip (debug : List Char → String) (debugAssertions : Bool)
    {sha256 : List Char → List UInt8} (hsize : ∀ text, (sha256 text).length = 32) :
    (∀ t, Built debug t → TaskId.fromStr debug t.display = .ok t) ∧
    (∀ c : CallId, Built debug c.taskId → c.argsId ≠ [] → ':' ∉ c.argsId →
      CallId.fromStr debug debugAssertions c.display = .ok c) ∧
    (∀ (t : TaskId) (args : SerializedArguments), Built debug t → ∃ c,
      CallId.new debug debugAssertions t
          (args.computeArgsId fun text => String.ofList (lowerHex (sha256 text))).toList =
        (.ok c : Fallible Empty CallId) ∧
      CallId.fromStr debug debugAssertions c.display = .ok c) ∧
    (∀ s t, TaskId.fromStr debug s = .ok t → TaskId.fromStr debug t.display = .ok t) ∧
    (∀ s s' t t', TaskId.fromStr debug s = .ok t → TaskId.fromStr debug s' = .ok t' →
      (t.display = t'.display ↔ t = t')) ∧
    (∀ s c, CallId.fromStr debug debugAssertions s = .ok c →
      CallId.fromStr debug debugAssertions c.display = .ok c) ∧
    (∀ s s' c c', CallId.fromStr debug debugAssertions s = .ok c →
      CallId.fromStr debug debugAssertions s' = .ok c' → (c.display = c'.display ↔ c = c')) ∧
    ∀ language module name argsId t language' module' name' argsId' t',
      TaskId.tryForLanguage debug language module name = .ok t →
      TaskId.tryForLanguage debug language' module' name' = .ok t' →
      (t.display = t'.display → (language, module, name) = (language', module', name')) ∧
      (argsId ≠ [] → ':' ∉ argsId → argsId' ≠ [] → ':' ∉ argsId' →
        CallId.display ⟨t, argsId⟩ = CallId.display ⟨t', argsId'⟩ →
        (language, module, name, argsId) = (language', module', name', argsId')) := by
  refine ⟨fun t h => fromStr_display h,
    fun c h hne hcolon => callFromStr_display debugAssertions h hne hcolon, ?_, ?_, ?_, ?_, ?_, ?_⟩
  · intro t args h
    obtain ⟨hne, hcolon⟩ := computeArgsId_readable hsize args
    exact ⟨⟨t, _⟩, new_of_notMem hcolon, callFromStr_display debugAssertions h hne hcolon⟩
  · intro s t h
    exact fromStr_display (.fromStr h)
  · intro s s' t t' h h'
    exact ⟨display_inj (.fromStr h) (.fromStr h'), congrArg _⟩
  · intro s c h
    obtain ⟨hbuilt, hne, hcolon⟩ := callFromStr_ok h
    exact callFromStr_display debugAssertions hbuilt hne hcolon
  · intro s s' c c' h h'
    obtain ⟨hbuilt, hne, hcolon⟩ := callFromStr_ok h
    obtain ⟨hbuilt', hne', hcolon'⟩ := callFromStr_ok h'
    exact ⟨callDisplay_inj hbuilt hne hcolon hbuilt' hne' hcolon', congrArg _⟩
  · intro language module name argsId t language' module' name' argsId' t' h h'
    obtain ⟨-, rfl, rfl, rfl⟩ := tryForLanguage_ok h
    obtain ⟨-, rfl, rfl, rfl⟩ := tryForLanguage_ok h'
    constructor
    · intro heq
      rw [display_inj (.tryForLanguage h) (.tryForLanguage h') heq]
    · intro hne hcolon hne' hcolon' heq
      have hcall : (⟨t, argsId⟩ : CallId) = ⟨t', argsId'⟩ :=
        callDisplay_inj (.tryForLanguage h) hne hcolon (.tryForLanguage h') hne' hcolon' heq
      obtain ⟨rfl, rfl⟩ := CallId.mk.inj hcall
      rfl

/-- The SHA-256 digest of the arguments `x = 1`, and zeros for other texts. -/
def sampleSha256 (text : List Char) : List UInt8 :=
  if text = "\"x\"=\"1\";".toList then
    [116, 189, 69, 50, 91, 57, 244, 65, 75, 220, 125, 189, 57, 27, 182, 219,
      204, 187, 17, 189, 141, 215, 121, 14, 250, 45, 194, 157, 46, 98, 227, 64]
  else List.replicate 32 0

theorem length_sampleSha256 (text : List Char) : (sampleSha256 text).length = 32 := by
  unfold sampleSha256
  split
  · rfl
  · simp

/-- A module that ends with a colon, and a name that starts with one. -/
def colonTask : TaskId where
  language := .python
  packed := "a.é::b".toList
  moduleEnd := 5
  boundary := ⟨"a.é:".toList, ":b".toList, by decide, by decide⟩

theorem identifiers_round_trip_colonTask :
    colonTask.display = "python::a.é:.:b".toList ∧
      TaskId.fromStr (fun _ => "") colonTask.display = .ok colonTask ∧
      ∃ c, CallId.new (fun _ => "") true colonTask
          ((SerializedArguments.empty.insert "x" "1").computeArgsId fun text =>
            String.ofList (lowerHex (sampleSha256 text))).toList =
          (.ok c : Fallible Empty CallId) ∧
        CallId.fromStr (fun _ => "") true c.display = .ok c := by
  have hparts : TaskId.tryForLanguage (fun _ => "") .python "a.é:".toList ":b".toList =
      .ok colonTask := by decide +kernel
  have hbuilt : Built (fun _ => "") colonTask := .tryForLanguage hparts
  obtain ⟨htask, -, hcall, -⟩ := identifiers_round_trip (fun _ => "") true length_sampleSha256
  exact ⟨by decide +kernel, htask _ hbuilt, hcall _ _ hbuilt⟩

end Rustvello.Proto.Packed
