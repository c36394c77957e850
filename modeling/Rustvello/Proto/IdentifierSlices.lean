import Rustvello.Proto.Identifiers
import Rustvello.Text.Slices

/-!
# Where reading an identifier panics

`from_str` finds byte offsets and slices the text there, and every constructor ends in
`from_parts`, which asserts that the length of the module has sixteen bits.  Here slices can
fail like in the source.

* `sliceTo`, `sliceFrom` — slices, with the panic off a letter boundary;
* `TaskId.parse`, `CallId.parse` — `from_str` with its offsets; `parse_eq` compares them with
  `fromStr`, so that no slice fails;
* `Overlong` — parts that every check accepts, and whose module does not fit;
* `parsing_total_iff` — nothing else makes a fallible constructor panic;
* `tryNew_panics` — a long module does.

What a string of that size takes to be allocated is left out.
-/

namespace Rustvello.Proto.Packed

open Text

/-! ## Slices -/

section Slicing

variable {ε : Type}

def outOfRange : String :=
  "byte index is out of bounds or not a char boundary"

/-- `&s[..n]` -/
def sliceTo (s : List Char) (n : Nat) : Fallible ε (List Char) :=
  match cutAt n s with
  | none => .error (.panicked outOfRange)
  | some sides => .ok sides.1

/-- `&s[n..]` -/
def sliceFrom (s : List Char) (n : Nat) : Fallible ε (List Char) :=
  match cutAt n s with
  | none => .error (.panicked outOfRange)
  | some sides => .ok sides.2

theorem sliceTo_of_cutAt {s front back : List Char} {n : Nat}
    (h : cutAt n s = some (front, back)) : (sliceTo s n : Fallible ε _) = .ok front := by
  rw [sliceTo, h]

theorem sliceFrom_of_cutAt {s front back : List Char} {n : Nat}
    (h : cutAt n s = some (front, back)) : (sliceFrom s n : Fallible ε _) = .ok back := by
  rw [sliceFrom, h]

end Slicing

/-! ## Reading with offsets -/

section Reading

variable (debug : List Char → String)

/-- The language prefix, if there is one, and the rest. -/
def parseLanguage (s : List Char) : Fallible ParseTaskIdError (TaskLanguage × List Char) :=
  match findBytes [':', ':'] s with
  | none => .ok (.rust, s)
  | some langEnd => do
      let lang ← sliceTo s langEnd
      if lang = [] then .error (.error ⟨"empty language before '::'"⟩)
      else do
        let language ← languageFromStr debug lang
        let rest ← sliceFrom s (langEnd + 2)
        pure (language, rest)

/-- `<TaskId as FromStr>::from_str` -/
def TaskId.parse (s : List Char) : Fallible ParseTaskIdError TaskId :=
  if s = [] then .error (.error ⟨"empty task ID string"⟩)
  else do
    let (language, rest) ← parseLanguage debug s
    match rfindBytes '.' rest with
    | none => .error (.error ⟨"no '.' separator in task ID: " ++ debug s⟩)
    | some dotPos => do
        let module ← sliceTo rest dotPos
        let name ← sliceFrom rest (dotPos + 1)
        if module = [] then .error (.error ⟨"empty module in task ID: " ++ debug s⟩)
        else if name = [] then .error (.error ⟨"empty name in task ID: " ++ debug s⟩)
        else TaskId.tryForLanguage debug language module name

/-- `<CallId as FromStr>::from_str` -/
def CallId.parse (debugAssertions : Bool) (s : List Char) : Fallible ParseCallIdError CallId :=
  match rfindBytes ':' s with
  | none => .error (.error (.format ("no ':' separator in call ID: " ++ debug s)))
  | some colonPos => do
      let taskStr ← sliceTo s colonPos
      let argsId ← sliceFrom s (colonPos + 1)
      if argsId = [] then .error (.error (.format ("empty args_id in call ID: " ++ debug s)))
      else do
        let taskId ← Failure.mapError .taskId (TaskId.parse debug taskStr)
        CallId.new debug debugAssertions taskId argsId

end Reading

/-! ## No slice fails -/

section Sliced

variable {debug : List Char → String}

theorem parseLanguage_eq (s : List Char) : parseLanguage debug s = splitLanguage debug s := by
  unfold parseLanguage splitLanguage
  rw [findBytes_eq]
  cases hsplit : splitFirst [':', ':'] s with
  | none => rfl
  | some parts =>
      obtain ⟨lang, rest⟩ := parts
      obtain ⟨hbefore, hafter⟩ := cutAt_findBytes hsplit
      have hto := sliceTo_of_cutAt (ε := ParseTaskIdError) hbefore
      have hfrom : (sliceFrom s (bytes lang + 2) : Fallible ParseTaskIdError _) = .ok rest :=
        sliceFrom_of_cutAt hafter
      dsimp only [Option.map_some]
      rw [hto, hfrom]
      show (if lang = [] then _ else _) = if lang = [] then _ else _
      split
      · rfl
      · cases languageFromStr debug lang <;> rfl

/-- **Reading with offsets** cuts where the marks are. -/
theorem TaskId.parse_eq (s : List Char) : TaskId.parse debug s = TaskId.fromStr debug s := by
  unfold TaskId.parse TaskId.fromStr
  rw [parseLanguage_eq]
  split
  · rfl
  · cases splitLanguage debug s with
    | error e => rfl
    | ok parts =>
        obtain ⟨language, rest⟩ := parts
        dsimp only [bind, Except.bind]
        rw [rfindBytes_eq]
        cases hsplit : splitLast '.' rest with
        | none => rfl
        | some parts =>
            obtain ⟨module, name⟩ := parts
            obtain ⟨hbefore, hafter⟩ := cutAt_rfindBytes hsplit
            have hto := sliceTo_of_cutAt (ε := ParseTaskIdError) hbefore
            have hfrom : (sliceFrom rest (bytes module + 1) : Fallible ParseTaskIdError _) =
                .ok name := sliceFrom_of_cutAt hafter
            dsimp only [Option.map_some]
            rw [hto, hfrom]

theorem CallId.parse_eq (debugAssertions : Bool) (s : List Char) :
    CallId.parse debug debugAssertions s = CallId.fromStr debug debugAssertions s := by
  unfold CallId.parse CallId.fromStr
  rw [rfindBytes_eq]
  cases hsplit : splitLast ':' s with
  | none => rfl
  | some parts =>
      obtain ⟨taskStr, argsId⟩ := parts
      obtain ⟨hbefore, hafter⟩ := cutAt_rfindBytes hsplit
      have hto := sliceTo_of_cutAt (ε := ParseCallIdError) hbefore
      have hfrom : (sliceFrom s (bytes taskStr + 1) : Fallible ParseCallIdError _) = .ok argsId :=
        sliceFrom_of_cutAt hafter
      dsimp only [Option.map_some]
      rw [hto, hfrom]
      show (if argsId = [] then _ else _) = if argsId = [] then _ else _
      rw [TaskId.parse_eq]

/-- `module()` and `name()` slice at the end of a letter. -/
theorem TaskId.slices (t : TaskId) :
    (sliceTo t.packed t.moduleEnd.toNat : Fallible Empty _) = .ok t.module ∧
      (sliceFrom t.packed t.moduleEnd.toNat : Fallible Empty _) = .ok t.name := by
  obtain ⟨front, back, hpacked, hbytes⟩ := t.boundary
  have hcut := cutAt_append front back
  rw [hbytes, ← hpacked] at hcut
  have hmodule : t.module = front := by
    rw [TaskId.module, hpacked, ← hbytes, takeBytes_append]
  have hname : t.name = back := by
    rw [TaskId.name, hpacked, ← hbytes, dropBytes_append]
  rw [hmodule, hname]
  exact ⟨sliceTo_of_cutAt hcut, sliceFrom_of_cutAt hcut⟩

end Sliced

/-! ## Panics -/

/-- It returns, with a value or with an error. -/
def Returns {ε α : Type} (r : Fallible ε α) : Prop :=
  ∀ message, r ≠ .error (.panicked message)

/-- Parts that pass every check, with a module that is too long for its offset. -/
def Overlong (module name : List Char) : Prop :=
  (name ≠ [] ∧ ¬('.' ∈ name ∨ [':', ':'] <:+: name) ∧ module ≠ [] ∧ ¬[':', ':'] <:+: module) ∧
    65535 < bytes module

/-- A text with such parts. -/
def OverlongText (debug : List Char → String) (s : List Char) : Prop :=
  ∃ language rest module name, splitLanguage debug s = .ok (language, rest) ∧
    splitLast '.' rest = some (module, name) ∧ Overlong module name

section Totality

variable {debug : List Char → String} {ε ε' α : Type}

theorem returns_ok (a : α) : Returns (.ok a : Fallible ε α) :=
  nofun

theorem returns_error (e : ε) : Returns (.error (.error e) : Fallible ε α) :=
  nofun

theorem returns_mapError_iff (f : ε → ε') (r : Fallible ε α) :
    Returns (Failure.mapError f r) ↔ Returns r := by
  rcases r with (e | message) | a
  · exact iff_of_true (returns_error _) (returns_error _)
  · exact iff_of_false (fun h => h message rfl) fun h => h message rfl
  · exact iff_of_true (returns_ok _) (returns_ok _)

theorem languageFromStr_returns (debug : List Char → String) (value : List Char) :
    Returns (languageFromStr debug value) := by
  unfold languageFromStr
  split
  · exact returns_ok _
  · split
    · exact returns_ok _
    · exact returns_error _

theorem splitLanguage_returns (debug : List Char → String) (s : List Char) :
    Returns (splitLanguage debug s) := by
  unfold splitLanguage
  split
  · exact returns_ok _
  · split
    · exact returns_error _
    · rename_i lang rest _ _
      have hlanguage := languageFromStr_returns debug lang
      cases hread : languageFromStr debug lang with
      | ok language => exact returns_ok _
      | error e =>
          intro message hmessage
          rw [hread] at hlanguage
          exact hlanguage message (congrArg Except.error (Except.error.inj hmessage))

theorem fromParts_returns_iff (language : TaskLanguage) (module name : List Char) :
    Returns (TaskId.fromParts language module name) ↔ bytes module ≤ 65535 := by
  unfold TaskId.fromParts
  split
  · rename_i hfits
    exact iff_of_true (returns_ok _) hfits
  · rename_i hlong
    exact iff_of_false (fun h => h _ rfl) hlong

/-- The checks refuse with errors; the assertion is left. -/
theorem tryForLanguage_returns_iff (debug : List Char → String) (language : TaskLanguage)
    (module name : List Char) :
    Returns (TaskId.tryForLanguage debug language module name) ↔ ¬ Overlong module name := by
  unfold TaskId.tryForLanguage
  split
  · rename_i hname
    exact iff_of_true (returns_error _) fun h => h.1.1 hname
  split
  · rename_i hmarks
    exact iff_of_true (returns_error _) fun h => h.1.2.1 hmarks
  split
  · rename_i hmodule
    exact iff_of_true (returns_error _) fun h => h.1.2.2.1 hmodule
  split
  · rename_i hmark
    exact iff_of_true (returns_error _) fun h => h.1.2.2.2 hmark
  rename_i hname hmarks hmodule hmark
  rw [fromParts_returns_iff, Overlong, and_iff_right ⟨hname, hmarks, hmodule, hmark⟩]
  exact Nat.not_lt.symm

theorem fromStr_returns_iff (s : List Char) :
    Returns (TaskId.fromStr debug s) ↔ ¬ OverlongText debug s := by
  unfold TaskId.fromStr
  split
  · rename_i hempty
    refine iff_of_true (returns_error _) ?_
    rintro ⟨language, rest, module, name, hlanguage, hdot, -⟩
    rw [hempty] at hlanguage
    cases hlanguage
    cases hdot
  have hreturns := splitLanguage_returns debug s
  cases hlanguage : splitLanguage debug s with
  | error e =>
      rw [hlanguage] at hreturns
      refine iff_of_true (fun message h => hreturns message ?_) ?_
      · exact congrArg Except.error (Except.error.inj h)
      · rintro ⟨_, _, _, _, h, -⟩
        rw [hlanguage] at h
        cases h
  | ok parts =>
      obtain ⟨language, rest⟩ := parts
      have htext : OverlongText debug s ↔
          ∃ module name, splitLast '.' rest = some (module, name) ∧ Overlong module name := by
        constructor
        · rintro ⟨_, _, module, name, h, hdot, hlong⟩
          rw [hlanguage] at h
          cases h
          exact ⟨module, name, hdot, hlong⟩
        · rintro ⟨module, name, hdot, hlong⟩
          exact ⟨language, rest, module, name, hlanguage, hdot, hlong⟩
      rw [htext]
      dsimp only [bind, Except.bind]
      cases hdot : splitLast '.' rest with
      | none =>
          refine iff_of_true (returns_error _) ?_
          rintro ⟨_, _, h, -⟩
          cases h
      | some parts =>
          obtain ⟨module, name⟩ := parts
          have hparts : (∃ module' name', some (module, name) = some (module', name') ∧
              Overlong module' name') ↔ Overlong module name := by
            constructor
            · rintro ⟨_, _, h, hlong⟩
              cases h
              exact hlong
            · exact fun hlong => ⟨module, name, rfl, hlong⟩
          rw [hparts]
          show Returns (if module = [] then _ else if name = [] then _ else _) ↔ _
          split
          · rename_i hmodule
            exact iff_of_true (returns_error _) fun h => h.1.2.2.1 hmodule
          split
          · rename_i hname
            exact iff_of_true (returns_error _) fun h => h.1.1 hname
          · exact tryForLanguage_returns_iff debug language module name

/-- What stands after the last colon has none, so the assertion of `CallId::new` holds. -/
theorem callFromStr_returns_iff (debugAssertions : Bool) (s : List Char) :
    Returns (CallId.fromStr debug debugAssertions s) ↔
      ¬ ∃ taskStr argsId, splitLast ':' s = some (taskStr, argsId) ∧ argsId ≠ [] ∧
        OverlongText debug taskStr := by
  unfold CallId.fromStr
  cases hsplit : splitLast ':' s with
  | none =>
      refine iff_of_true (returns_error _) ?_
      rintro ⟨_, _, h, -⟩
      cases h
  | some parts =>
      obtain ⟨taskStr, argsId⟩ := parts
      have hcolon := (of_splitLast hsplit).2
      have hparts : (∃ taskStr' argsId', some (taskStr, argsId) = some (taskStr', argsId') ∧
          argsId' ≠ [] ∧ OverlongText debug taskStr') ↔
          argsId ≠ [] ∧ OverlongText debug taskStr := by
        constructor
        · rintro ⟨_, _, h, hrest⟩
          cases h
          exact hrest
        · exact fun hrest => ⟨taskStr, argsId, rfl, hrest⟩
      rw [hparts]
      show Returns (if argsId = [] then _ else _) ↔ _
      split
      · rename_i hempty
        exact iff_of_true (returns_error _) fun h => h.1 hempty
      rename_i hne
      rw [and_iff_right hne, ← fromStr_returns_iff,
        ← returns_mapError_iff ParseCallIdError.taskId]
      cases Failure.mapError ParseCallIdError.taskId (TaskId.fromStr debug taskStr) with
      | error e =>
          show Returns (.error e : Fallible ParseCallIdError CallId) ↔ _
          constructor
          · exact fun h message hread => h message (congrArg Except.error (Except.error.inj hread))
          · exact fun h message hread => h message (congrArg Except.error (Except.error.inj hread))
      | ok taskId =>
          show Returns (CallId.new debug debugAssertions taskId argsId) ↔ _
          rw [new_of_notMem hcolon]
          exact iff_of_true (returns_ok _) (returns_ok _)

end Totality

/-- **Where the fallible constructors panic.**  On parts that every check accepts and whose
module has more than 65535 bytes, and nowhere else; no slice fails, also not those of the
accessors. -/
theorem parsing_total_iff (debug : List Char → String) (debugAssertions : Bool) :
    (∀ module name, Returns (TaskId.tryNew debug module name) ↔ ¬ Overlong module name) ∧
    (∀ language module name,
      Returns (TaskId.tryForLanguage debug language module name) ↔ ¬ Overlong module name) ∧
    (∀ language module name,
      Returns (TaskId.deserialize debug language module name) ↔ ¬ Overlong module name) ∧
    (∀ s, Returns (TaskId.parse debug s) ↔ ¬ OverlongText debug s) ∧
    (∀ s, Returns (CallId.parse debug debugAssertions s) ↔
      ¬ ∃ taskStr argsId, splitLast ':' s = some (taskStr, argsId) ∧ argsId ≠ [] ∧
        OverlongText debug taskStr) ∧
    ∀ t : TaskId, (sliceTo t.packed t.moduleEnd.toNat : Fallible Empty _) = .ok t.module ∧
      (sliceFrom t.packed t.moduleEnd.toNat : Fallible Empty _) = .ok t.name := by
  refine ⟨tryForLanguage_returns_iff debug .rust, tryForLanguage_returns_iff debug,
    fun language => tryForLanguage_returns_iff debug (language.getD .rust), ?_, ?_, TaskId.slices⟩
  · intro s
    rw [TaskId.parse_eq]
    exact fromStr_returns_iff s
  · intro s
    rw [CallId.parse_eq]
    exact callFromStr_returns_iff debugAssertions s

/-- A module of 65536 letters is not refused: the assertion fails. -/
theorem tryNew_panics :
    ¬ ∀ (debug : List Char → String) (module name : List Char),
      Returns (TaskId.tryNew debug module name) := by
  intro h
  have hreturns := (tryForLanguage_returns_iff (fun _ => "") .rust
    (List.replicate 65536 'a') ['b']).mp (h _ _ _)
  refine hreturns ⟨⟨by decide, by decide, ?_, ?_⟩, ?_⟩
  · rw [List.replicate_succ]
    exact List.cons_ne_nil _ _
  · intro hmark
    have hmem : ':' ∈ List.replicate 65536 'a' :=
      hmark.subset List.mem_cons_self
    exact absurd (List.eq_of_mem_replicate hmem) (by decide)
  · have hlength : bytes (List.replicate 65536 'a') = 65536 := by
      simp only [bytes, List.map_replicate, List.sum_replicate]
      rfl
    rw [hlength]
    omega

end Rustvello.Proto.Packed
