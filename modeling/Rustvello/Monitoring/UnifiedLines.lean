import Rustvello.Monitoring.LogFormat
import Rustvello.Monitoring.LogParser

/-!
# Lines of the unified format

What the parser makes of a line that begins with the time, the level and the tag `[R]`, by what
stands after the tag: whitespace, a word, whitespace and the rest of the line; or no whitespace
after the first word.
-/

namespace Rustvello.Monitoring

open Text Regex

/-- The first bracket of a text closes before whitespace. -/
def BracketFirst (text : List Char) : Prop :=
  ∃ inner c rest, text = '[' :: (inner ++ ']' :: c :: rest) ∧ ']' ∉ inner ∧ isWhite c = true

/-- No letter is whitespace. -/
def Solid (text : List Char) : Prop :=
  ∀ c ∈ text, isWhite c = false

/-- Some whitespace. -/
structure Gap (text : List Char) : Prop where
  ne_nil : text ≠ []
  white : ∀ c ∈ text, isWhite c = true

theorem forall_mem_of_all {p : Char → Prop} [DecidablePred p] {text : List Char}
    (h : text.all (fun c => decide (p c)) = true) : ∀ c ∈ text, p c :=
  fun c hc => of_decide_eq_true (List.all_eq_true.mp h c hc)

theorem leads_white {spaces rest : List Char} (hspaces : Gap spaces) (hrest : Outside isWhite rest) :
    Leads white isWhite (spaces ++ rest) [] rest :=
  leads_plus hspaces.white hspaces.ne_nil hrest

section Header

variable (tables : UnicodeTables) (now : LogTime) (level : Level) (rest : List Char)

/-- The time, the level and the tag. -/
def header (now : LogTime) (level : Level) : List Char :=
  now.text ++ (' ' :: padded level.name ++ ' ' :: "[R]".toList)

/-- What the expression says after the tag. -/
def unifiedTail : Regex Char :=
  cat [white, group 4 (plus fun c => !isWhite c), white,
    opt (cat [letter '[', group 5 (star fun c => c ≠ ']'), letter ']', white]),
    group 6 (star fun c => c ≠ '\n')]

theorem text_eq : ∃ a b c d e f g h i j k l m n o p q : Nat, now.text =
    [digit a, digit b, digit c, digit d, '-', digit e, digit f, '-', digit g, digit h, 'T',
      digit i, digit j, ':', digit k, digit l, ':', digit m, digit n, '.', digit o, digit p,
      digit q, 'Z'] :=
  ⟨_, _, _, _, _, _, _, _, _, _, _, _, _, _, _, _, _, rfl⟩

theorem decimal_digit (n : Nat) : tables.decimal (digit n) = true := by
  have hsmall : (digit n).toNat < 128 := by
    rw [toNat_digit]
    omega
  rw [tables.decimal_ascii _ hsmall]
  exact isDigit_digit n

/-- The letters of the header. -/
theorem header_letters :
    ∀ c ∈ header now level, c.isAlphanum = true ∨ c ∈ ['-', ':', '.', ' ', '[', ']'] := by
  have hdigit : ∀ n, (digit n).isAlphanum = true := by
    intro n
    simp [Char.isAlphanum, isDigit_digit]
  have htime : ∀ c ∈ now.text, c.isAlphanum = true ∨ c ∈ ['-', ':', '.', ' ', '[', ']'] := by
    obtain ⟨a, b, c, d, e, f, g, h, i, j, k, l, m, n, o, p, q, htext⟩ := text_eq now
    rw [htext]
    simp only [List.forall_mem_cons, hdigit, true_or, true_and, List.not_mem_nil, false_imp_iff,
      implies_true, and_true]
    decide
  have hlevel : ∀ c ∈ ' ' :: padded level.name ++ ' ' :: "[R]".toList,
      c.isAlphanum = true ∨ c ∈ ['-', ':', '.', ' ', '[', ']'] := by
    cases level <;> exact forall_mem_of_all rfl
  intro c hc
  rcases List.mem_append.mp hc with hc | hc
  · exact htime c hc
  · exact hlevel c hc

theorem unifiedTime_run :
    (cat (dateTime tables (fun c => c = 'T') ++ [letter '.', digits tables 3, letter 'Z'])).run
      (now.text ++ rest) = [([], rest)] := by
  obtain ⟨a, b, c, d, e, f, g, h, i, j, k, l, m, n, o, p, q, htext⟩ := text_eq now
  rw [htext]
  simp [dateTime, digits, times, cat, letter, run, decimal_digit, List.replicate]

theorem unifiedLevel_run :
    (oneOf (["TRACE", "DEBUG", "INFO", "WARN", "ERROR", "CRIT"].map
      fun level => Regex.word level.toList)).run (level.name ++ rest) = [([], rest)] := by
  cases level <;> simp [oneOf, Regex.word, cat, letter, run, Level.name]

/-- The names of levels. -/
theorem failsOn_levels {levels : List String}
    (h : ∀ level ∈ levels, ∃ c cs, level.toList = c :: cs ∧ isWhite c = false) :
    FailsOn (oneOf (levels.map fun level => Regex.word level.toList)) isWhite := by
  refine failsOn_oneOf fun r hr => ?_
  obtain ⟨level, hlevel, rfl⟩ := List.mem_map.mp hr
  obtain ⟨c, cs, heq, hc⟩ := h level hlevel
  rw [heq]
  exact failsOn_word hc cs

theorem level_outside : Outside isWhite (level.name ++ rest) := by
  cases level <;> exact fun c hc => by cases hc; rfl

/-- Up to the tag there is one way to match. -/
theorem unified_run (z : List Char) :
    (unifiedLineRe tables).run (header now level ++ z) = (unifiedTail.run z).map fun m =>
      ((1, now.text) :: (2, level.name) :: (3, ['R']) :: m.1, m.2) := by
  let spaces := List.replicate (5 - level.name.length) ' ' ++ [' ']
  have hspaces : Gap spaces := by
    refine ⟨by simp [spaces], fun c hc => ?_⟩
    rcases List.mem_append.mp hc with hc | hc
    · rw [List.eq_of_mem_replicate hc]
      rfl
    · rw [List.mem_singleton.mp hc]
      rfl
  have hline : header now level ++ z =
      now.text ++ ([' '] ++ (level.name ++ (spaces ++ ('[' :: 'R' :: ']' :: z)))) := by
    simp [header, padded, spaces]
  have htime := (leads_of_run (unifiedTime_run tables now ([' '] ++ (level.name ++
    (spaces ++ ('[' :: 'R' :: ']' :: z))))) fun _ => false).group 1
  have hfirst : Leads white isWhite ([' '] ++ (level.name ++ (spaces ++ ('[' :: 'R' :: ']' :: z))))
      [] (level.name ++ (spaces ++ ('[' :: 'R' :: ']' :: z))) :=
    leads_white ⟨List.cons_ne_nil _ _, by simp [isWhite]⟩ (level_outside level _)
  have hlevel := (leads_of_run (unifiedLevel_run level (spaces ++ ('[' :: 'R' :: ']' :: z)))
    fun _ => false).group 2
  have hsecond : Leads white isWhite (spaces ++ ('[' :: 'R' :: ']' :: z)) []
      ('[' :: 'R' :: ']' :: z) :=
    leads_white hspaces fun c hc => by cases hc; rfl
  have htag : (group 3 (oneOf [letter 'R', letter 'P'])).run ('R' :: ']' :: z) =
      [([(3, ['R'])], ']' :: z)] := by
    simp [oneOf, letter, run]
  have hlevels : FailsOn (oneOf (["TRACE", "DEBUG", "INFO", "WARN", "ERROR", "CRIT"].map
      fun level => Regex.word level.toList)) isWhite :=
    failsOn_levels (by simp [isWhite])
  rw [hline]
  show (seq _ (seq white (seq _ (seq white (seq (letter '[') (seq _ (seq (letter ']')
    unifiedTail))))))).run _ = _
  rw [htime.run_seq (failsOn_false _), hfirst.run_seq ((hlevels.group 2).seq _),
    hlevel.run_seq (failsOn_false _), hsecond.run_seq ((failsOn_letter rfl).seq _),
    (leads_letter '[' (fun _ => false) _).run_seq (failsOn_false _),
    (leads_of_run htag fun _ => false).run_seq (failsOn_false _),
    (leads_letter ']' (fun _ => false) z).run_seq (failsOn_false _)]
  simp only [List.map_map]
  rfl

end Header

/-! ## After the tag -/

section Tail

variable {spaces word gap q inner rest : List Char}

theorem Solid.outside (h : Solid word) : Outside isWhite word :=
  fun c hc => h c (List.mem_of_mem_head? hc)

theorem white_run_of_solid (h : Solid word) : white.run word = [] := by
  cases word with
  | nil => rfl
  | cons c cs =>
      have hfails : FailsOn white fun c => !isWhite c :=
        (failsOn_one fun c hc => by simpa using hc).seq _
      exact hfails c cs (by simp [h c List.mem_cons_self])

theorem failsOn_firstWord : FailsOn (plus fun c => !isWhite c) isWhite :=
  (failsOn_one fun c hc => by simpa using hc).seq _

theorem Solid.suffix {text : List Char} (h : Solid word) (hsuffix : text <:+ word) : Solid text :=
  fun c hc => h c (hsuffix.subset hc)

/-- Whitespace is not found in a word, whatever precedes it. -/
theorem endsWhite_fails (rs : List (Regex Char)) (h : Solid word) :
    (cat (rs ++ [white])).run word = [] := by
  induction rs generalizing word with
  | nil => exact run_seq_of_nil (white_run_of_solid h) empty
  | cons r rs ih =>
      show (seq r (cat (rs ++ [white]))).run word = []
      rw [run_seq, List.flatMap_eq_nil_iff]
      intro m hm
      rw [ih (h.suffix (suffix_of_mem_run hm)), List.map_nil]

theorem oneWord_fails (n : Nat) (s : Regex Char) (h : Solid word) :
    (seq (group n (plus fun c => !isWhite c)) (seq white s)).run word = [] := by
  rw [run_seq, List.flatMap_eq_nil_iff]
  intro m hm
  rw [run_seq_of_nil (white_run_of_solid (h.suffix (suffix_of_mem_run hm))), List.map_nil]

/-- One word only does not make a line of this format. -/
theorem unifiedTail_fails (hspaces : Gap spaces) (hword : Solid word) :
    unifiedTail.run (spaces ++ word) = [] := by
  show (seq white (seq _ (seq white _))).run (spaces ++ word) = []
  rw [(leads_white hspaces hword.outside).run_seq ((failsOn_firstWord.group 4).seq _)]
  rw [oneWord_fails 4 _ hword]
  rfl

/-- The optional bracket of the context. -/
def bracketGroup : Regex Char :=
  cat [letter '[', group 5 (star fun c => c ≠ ']'), letter ']', white]

theorem leads_inner (hinner : ']' ∉ inner) (rest : List Char)
    (hrest : Outside (fun c => c ≠ ']') rest) :
    Leads (group 5 (star fun c => c ≠ ']')) (fun c => c ≠ ']') (inner ++ rest) [(5, inner)] rest := by
  refine (leads_star ?_ hrest).group 5
  intro c hc
  exact decide_eq_true (ne_of_mem_of_not_mem hc hinner)

theorem bracketGroup_first (hinner : ']' ∉ inner) (hgap : Gap gap) (hrest : Outside isWhite rest) :
    bracketGroup.first ('[' :: (inner ++ ']' :: (gap ++ rest))) = some ([(5, inner)], rest) := by
  have hend : (seq white empty).first (gap ++ rest) = some ([], rest) :=
    first_seq (leads_white hgap hrest).first rfl
  have hinner := leads_inner hinner (']' :: (gap ++ rest)) fun c hc => by cases hc; rfl
  exact first_seq (leads_letter '[' (fun _ => false) _).first
    (first_seq hinner.first (first_seq (leads_letter ']' (fun _ => false) _).first hend))

theorem bracketGroup_fails (h : ¬ BracketFirst q) : bracketGroup.run q = [] := by
  cases q with
  | nil => rfl
  | cons c body =>
      by_cases hopen : c = '['
      · subst hopen
        obtain ⟨inner, rest, hbody, hinner, hrest⟩ : ∃ inner rest, body = inner ++ rest ∧
            ']' ∉ inner ∧ Outside (fun c => c ≠ ']') rest := by
          refine ⟨body.takeWhile (fun c => c ≠ ']'), body.dropWhile (fun c => c ≠ ']'),
            (List.takeWhile_append_dropWhile).symm, ?_, ?_⟩
          · intro hmem
            simpa using List.mem_takeWhile_imp hmem
          · intro c hc
            have hstop := List.head?_dropWhile_not (fun c => decide (c ≠ ']')) body
            rw [Option.mem_def.mp hc] at hstop
            simpa using hstop
        have hclose : (seq (letter ']') (seq white empty)).run rest = [] := by
          cases rest with
          | nil => rfl
          | cons c tail =>
              obtain rfl : c = ']' := by simpa using hrest c rfl
              rw [(leads_letter ']' (fun _ => false) tail).run_seq (failsOn_false _)]
              have hnone : white.run tail = [] := by
                cases tail with
                | nil => rfl
                | cons c tail =>
                    by_cases hc : isWhite c = true
                    · exact absurd ⟨inner, c, tail, by rw [hbody], hinner, hc⟩ h
                    · exact (failsOn_one (p := fun c => !isWhite c) fun c hc => by simpa using hc).seq
                        _ c tail (by simpa using hc)
              rw [run_seq_of_nil hnone]
              rfl
        have hfails : FailsOn (seq (letter ']') (seq white empty)) fun c => c ≠ ']' :=
          (failsOn_letter (by simp)).seq _
        show (seq (letter '[') (seq _ (seq (letter ']') (seq white empty)))).run ('[' :: body) = []
        rw [(leads_letter '[' (fun _ => false) body).run_seq (failsOn_false _), hbody,
          (leads_inner hinner rest hrest).run_seq hfails, hclose]
        rfl
      · have hfails : FailsOn bracketGroup fun c => c ≠ '[' := (failsOn_letter (by simp)).seq _
        exact hfails c body (by simpa using hopen)

/-- The rest of the line. -/
theorem lastGroup_first (n : Nat) (hline : '\n' ∉ rest) :
    (cat [group n (star fun c => c ≠ '\n')]).first rest = some ([(n, rest)], []) := by
  have hall : ∀ c ∈ rest, decide (c ≠ '\n') = true := fun c hc =>
    decide_eq_true (ne_of_mem_of_not_mem hc hline)
  have hall : Leads (star fun c => decide (c ≠ '\n')) _ (rest ++ []) [] [] := leads_star hall nofun
  have hstar := hall.group n
  rw [List.append_nil] at hstar
  exact first_seq hstar.first rfl

theorem firstWord_first {s : Regex Char} {c : Captures Char} {left : List Char}
    (hspaces : Gap spaces) (hword : Solid word) (hne : word ≠ []) (hgap : Gap gap)
    (hq : Outside isWhite q) (hs : s.first q = some (c, left)) :
    (seq white (seq (group 4 (plus fun c => !isWhite c)) (seq white s))).first
      (spaces ++ (word ++ (gap ++ q))) = some ((4, word) :: c, left) := by
  have hwordOutside : Outside isWhite (word ++ (gap ++ q)) := by
    obtain ⟨c, cs, rfl⟩ := List.exists_cons_of_ne_nil hne
    exact fun x hx => by cases hx; exact hword c List.mem_cons_self
  have hgapOutside : Outside (fun c => !isWhite c) (gap ++ q) := by
    obtain ⟨c, cs, rfl⟩ := List.exists_cons_of_ne_nil hgap.ne_nil
    exact fun x hx => by cases hx; simp [hgap.white c List.mem_cons_self]
  have hfirst := (leads_plus (p := fun c => !isWhite c) (fun c hc => by simp [hword c hc]) hne
    hgapOutside).group 4
  exact first_seq (leads_white hspaces hwordOutside).first
    (first_seq hfirst.first (first_seq (leads_white hgap hq).first hs))

/-- A bracket after the first word is taken for the context. -/
theorem unifiedTail_bracket {gap' : List Char} (hspaces : Gap spaces) (hword : Solid word)
    (hne : word ≠ []) (hgap : Gap gap) (hinner : ']' ∉ inner) (hgap' : Gap gap')
    (hrest : Outside isWhite rest) (hline : '\n' ∉ rest) :
    unifiedTail.first (spaces ++ (word ++ (gap ++ '[' :: (inner ++ ']' :: (gap' ++ rest))))) =
      some ([(4, word), (5, inner), (6, rest)], []) :=
  firstWord_first hspaces hword hne hgap (fun c hc => by cases hc; rfl)
    (first_seq (first_opt_of_first (bracketGroup_first hinner hgap' hrest))
      (lastGroup_first 6 hline))

/-- Without one, the rest is the message. -/
theorem unifiedTail_plain (hspaces : Gap spaces) (hword : Solid word) (hne : word ≠ [])
    (hgap : Gap gap) (hq : Outside isWhite q) (hline : '\n' ∉ q) (h : ¬ BracketFirst q) :
    unifiedTail.first (spaces ++ (word ++ (gap ++ q))) = some ([(4, word), (6, q)], []) :=
  firstWord_first hspaces hword hne hgap hq
    (first_seq (first_opt_of_fails (bracketGroup_fails h)) (lastGroup_first 6 hline))

end Tail

/-! ## What the line says -/

/-- The context of a line: its runners, the worker, the invocation and the task. -/
abbrev LogContext :=
  List ParsedRunner × Option (List Char) × Option (List Char) × Option (List Char)

def ParsedLogLine.context (parsed : ParsedLogLine) : LogContext :=
  (parsed.runners, parsed.workerId, parsed.invocationId, parsed.taskKey)

section Lines

variable (tables : UnicodeTables) {now : LogTime} {level : Level}
  {spaces word gap q inner rest raw : List Char} {parsed : ParsedLogLine}

theorem splitFirst_letter (x : Char) (text : List Char) :
    splitFirst [x] text = if x ∈ text then
      some (text.takeWhile fun c => c ≠ x, (text.dropWhile fun c => c ≠ x).tail) else none := by
  induction text with
  | nil => rfl
  | cons c text ih =>
      by_cases hc : c = x
      · subst hc
        have hhere : [c] <+: c :: text := ⟨text, rfl⟩
        simp [splitFirst, hhere]
      · have hother : ¬ [x] <+: c :: text := by
          rw [List.cons_prefix_cons]
          exact fun hstart => hc hstart.1.symm
        rw [splitFirst, if_neg hother, ih]
        by_cases hmem : x ∈ text
        · simp [hmem, hc]
        · simp [hmem, Ne.symm hc]

theorem targetAndMessage_eq (rest : List Char) : targetAndMessage rest =
    (rest.takeWhile fun c => c ≠ ' ', (rest.dropWhile fun c => c ≠ ' ').tail) := by
  unfold targetAndMessage
  rw [splitFirst_letter]
  split
  · rfl
  · rename_i hmem
    have hall : ∀ c ∈ rest, decide (c ≠ ' ') = true := fun c hc =>
      decide_eq_true (ne_of_mem_of_not_mem hc hmem)
    rw [List.takeWhile_eq_self_iff.mpr hall, List.dropWhile_eq_nil_iff.mpr hall]
    rfl

/-- A line with a bracket. -/
theorem readUnified_eq (raw : List Char) (caps : Captures Char) (bracket : List Char)
    (h : caps.lookup 5 = some bracket) :
    (readUnified tables raw caps).level = some (canonicalLevel (captured caps 2)) ∧
      (readUnified tables raw caps).module = some (targetAndMessage (captured caps 6)).1 ∧
      (readUnified tables raw caps).message = (targetAndMessage (captured caps 6)).2 ∧
      (trim bracket ≠ [] →
        (readUnified tables raw caps).context = (contextOf (trim bracket) {}).context) := by
  unfold readUnified
  rw [h]
  dsimp only [Option.getD_some, Option.isSome_some, if_true]
  split
  · rename_i hempty
    exact ⟨rfl, rfl, rfl, fun hne => absurd hempty hne⟩
  · exact ⟨rfl, rfl, rfl, fun _ => rfl⟩

theorem unifiedFormat_plain (now : LogTime) (level : Level) (raw : List Char)
    (hspaces : Gap spaces) (hword : Solid word) (hne : word ≠ [])
    (hgap : Gap gap) (hq : Outside isWhite q) (hline : '\n' ∉ q) (h : ¬ BracketFirst q) :
    ∃ parsed, tryParseUnifiedFormat tables
        (header now level ++ (spaces ++ (word ++ (gap ++ q)))) raw = some parsed ∧
      parsed.level = some (canonicalLevel level.name) ∧ parsed.module = some word ∧
      parsed.message = q ∧ parsed.context = ([], none, none, none) := by
  have hfirst : (unifiedLineRe tables).first
      (header now level ++ (spaces ++ (word ++ (gap ++ q)))) =
        some ([(1, now.text), (2, level.name), (3, ['R']), (4, word), (6, q)], []) := by
    have htail := unifiedTail_plain hspaces hword hne hgap hq hline h
    unfold first at htail ⊢
    rw [unified_run, List.head?_map, htail]
    rfl
  unfold tryParseUnifiedFormat
  rw [hfirst]
  exact ⟨_, rfl, rfl, rfl, rfl, rfl⟩

theorem unifiedFormat_bracket (now : LogTime) (level : Level) (raw : List Char)
    {gap' : List Char} (hspaces : Gap spaces) (hword : Solid word)
    (hne : word ≠ []) (hgap : Gap gap) (hinner : ']' ∉ inner) (hgap' : Gap gap')
    (hrest : Outside isWhite rest) (hline : '\n' ∉ rest) :
    ∃ parsed, tryParseUnifiedFormat tables (header now level ++
        (spaces ++ (word ++ (gap ++ '[' :: (inner ++ ']' :: (gap' ++ rest)))))) raw = some parsed ∧
      parsed.level = some (canonicalLevel level.name) ∧
      parsed.module = some (rest.takeWhile fun c => c ≠ ' ') ∧
      parsed.message = (rest.dropWhile fun c => c ≠ ' ').tail ∧
      (trim inner ≠ [] → parsed.context = (contextOf (trim inner) {}).context) := by
  have hfirst : (unifiedLineRe tables).first (header now level ++
      (spaces ++ (word ++ (gap ++ '[' :: (inner ++ ']' :: (gap' ++ rest)))))) =
        some ([(1, now.text), (2, level.name), (3, ['R']), (4, word), (5, inner), (6, rest)], []) := by
    have htail := unifiedTail_bracket hspaces hword hne hgap hinner hgap' hrest hline
    unfold first at htail ⊢
    rw [unified_run, List.head?_map, htail]
    rfl
  obtain ⟨hlevel, hmodule, hmessage, hcontext⟩ := readUnified_eq tables raw
    [(1, now.text), (2, level.name), (3, ['R']), (4, word), (5, inner), (6, rest)] inner rfl
  have hparts := targetAndMessage_eq rest
  unfold tryParseUnifiedFormat
  rw [hfirst]
  refine ⟨_, rfl, hlevel, ?_, ?_, hcontext⟩
  · exact hmodule.trans (congrArg (fun parts => some parts.1) hparts)
  · exact hmessage.trans (congrArg Prod.snd hparts)

/-! ## The older formats -/

theorem isWhite_digit (n : Nat) : isWhite (digit n) = false := by
  simp [isWhite, toNat_digit]
  omega

theorem digit_ne {c : Char} (hc : c.isDigit = false) (n : Nat) : digit n ≠ c := by
  rintro rfl
  rw [isDigit_digit] at hc
  cases hc

/-- A time is read as far as it goes; shorter readings stop inside of it. -/
theorem anyTime_leads (now : LogTime) (rest : List Char) :
    Leads (anyTime tables) (fun c => !isWhite c) (now.text ++ ' ' :: rest) [] (' ' :: rest) := by
  obtain ⟨a, b, c, d, e, f, g, h, i, j, k, l, m, n, o, p, q, htext⟩ := text_eq now
  have hZ : tables.decimal 'Z' = false := tables.decimal_ascii 'Z' (by decide)
  rw [htext]
  refine ⟨[([], 'Z' :: ' ' :: rest), ([], digit q :: 'Z' :: ' ' :: rest),
    ([], digit p :: digit q :: 'Z' :: ' ' :: rest),
    ([], '.' :: digit o :: digit p :: digit q :: 'Z' :: ' ' :: rest)], ?_, ?_⟩
  · simp [anyTime, dateTime, digits, times, cat, letter, run, rests, opt, oneOf, plus,
      decimal_digit, List.replicate, hZ, digit_ne]
  · have hshort : ∀ (c : Char) (tail : List Char), isWhite c = false →
        ∃ x rest, c :: tail = x :: rest ∧ (!isWhite x) = true :=
      fun c tail hc => ⟨c, tail, rfl, by rw [hc]; rfl⟩
    simp only [List.forall_mem_cons, List.not_mem_nil, false_imp_iff, implies_true, and_true]
    exact ⟨hshort _ _ rfl, hshort _ _ (isWhite_digit q), hshort _ _ (isWhite_digit p),
      hshort _ _ rfl⟩

theorem bracketLevel_run (level : Level) (rest : List Char) :
    (oneOf (["TRACE", "DEBUG", "INFO", "WARNING", "WARN", "ERROR", "CRITICAL"].map
      fun level => Regex.word level.toList)).run (level.name ++ ' ' :: rest) =
        [([], ' ' :: rest)] := by
  cases level <;> simp [oneOf, Regex.word, cat, letter, run, Level.name]

/-- What the expression of the oldest format says after the level. -/
def bracketTail : Regex Char :=
  cat [group 3 (plus fun c => !isWhite c), white,
    opt (cat [letter '[', star fun c => c ≠ ']', letter ']', white]),
    opt (cat [letter '-', white]), group 4 (star fun c => c ≠ '\n')]

theorem bracketLine_run (now : LogTime) (level : Level) (z : List Char) :
    (bracketLineRe tables).run (header now level ++ z) =
      (bracketTail.run ("[R]".toList ++ z)).map fun m =>
        ((1, now.text) :: (2, level.name) :: m.1, m.2) := by
  let spaces := List.replicate (5 - level.name.length) ' '
  have hspaces : Gap (' ' :: spaces) := by
    refine ⟨List.cons_ne_nil _ _, fun c hc => ?_⟩
    rcases List.mem_cons.mp hc with rfl | hc
    · rfl
    · rw [List.eq_of_mem_replicate hc]
      rfl
  have hcomm : spaces ++ [' '] = ' ' :: spaces := List.replicate_succ'.symm
  have hline : header now level ++ z =
      now.text ++ ' ' :: (level.name ++ (' ' :: spaces ++ ("[R]".toList ++ z))) := by
    rw [← hcomm]
    simp [header, padded, spaces]
  have htime := (anyTime_leads tables now
    (level.name ++ (' ' :: spaces ++ ("[R]".toList ++ z)))).group 1
  have hfirst : Leads white isWhite ([' '] ++ (level.name ++ (' ' :: spaces ++ ("[R]".toList ++ z))))
      [] (level.name ++ (' ' :: spaces ++ ("[R]".toList ++ z))) :=
    leads_white ⟨List.cons_ne_nil _ _, by simp [isWhite]⟩ (level_outside level _)
  have hlevel := (leads_of_run (bracketLevel_run level (spaces ++ ("[R]".toList ++ z)))
    fun _ => false).group 2
  have hsecond : Leads white isWhite (' ' :: spaces ++ ("[R]".toList ++ z)) []
      ("[R]".toList ++ z) :=
    leads_white hspaces fun c hc => by cases hc; rfl
  have hwhite : ∀ s, FailsOn (seq white s) fun c => !isWhite c := fun s =>
    ((failsOn_one fun c hc => by simpa using hc).seq _).seq s
  have hlevels : FailsOn (oneOf (["TRACE", "DEBUG", "INFO", "WARNING", "WARN", "ERROR",
      "CRITICAL"].map fun level => Regex.word level.toList)) isWhite :=
    failsOn_levels (by simp [isWhite])
  rw [hline]
  show (seq _ (seq white (seq _ (seq white bracketTail)))).run _ = _
  rw [htime.run_seq (hwhite _)]
  change (((seq white (seq _ (seq white bracketTail))).run ([' '] ++ (level.name ++
    (' ' :: spaces ++ ("[R]".toList ++ z))))).map _) = _
  rw [hfirst.run_seq ((hlevels.group 2).seq _)]
  change ((((seq _ (seq white bracketTail)).run (level.name ++
    (' ' :: (spaces ++ ("[R]".toList ++ z))))).map _).map _) = _
  rw [hlevel.run_seq (failsOn_false _)]
  change (((((seq white bracketTail).run (' ' :: spaces ++ ("[R]".toList ++ z))).map _).map _).map
    _) = _
  rw [hsecond.run_seq (s := bracketTail) ((failsOn_firstWord.group 3).seq _)]
  simp only [List.map_map]
  rfl

theorem bracketLine_first {sp w : List Char} (now : LogTime) (level : Level)
    (hsp : sp = [] ∧ w = [] ∨ Gap sp) (hw : Solid w) :
    (bracketLineRe tables).first (header now level ++ (sp ++ w)) = none ∨
      ((bracketLineRe tables).first (header now level ++ (sp ++ w))).map Prod.fst =
        some [(1, now.text), (2, level.name), (3, "[R]".toList), (4, w)] := by
  have hbracket : Solid "[R]".toList := by simp [Solid, isWhite]
  unfold first
  rw [bracketLine_run]
  rcases hsp with ⟨rfl, rfl⟩ | hsp
  · left
    rw [show bracketTail.run ("[R]".toList ++ ([] ++ [])) = [] from oneWord_fails 3 _ hbracket]
    rfl
  · right
    have hline : '\n' ∉ w := fun hmem => by cases hw _ hmem
    have hout : Outside (fun c => !isWhite c) (sp ++ w) := by
      obtain ⟨c, cs, rfl⟩ := List.exists_cons_of_ne_nil hsp.ne_nil
      exact fun x hx => by cases hx; simp [hsp.white c List.mem_cons_self]
    have htag : Leads (group 3 (plus fun c => !isWhite c)) (fun c => !isWhite c)
        ("[R]".toList ++ (sp ++ w)) [(3, "[R]".toList)] (sp ++ w) :=
      (leads_plus (fun c hc => by simp [hbracket c hc]) (by simp) hout).group 3
    have hlast := lastGroup_first 4 hline
    have htail : bracketTail.first ("[R]".toList ++ (sp ++ w)) =
        some ([(3, "[R]".toList), (4, w)], []) :=
      first_seq htag.first (first_seq (leads_white hsp hw.outside).first
        (first_seq (first_opt_of_fails (endsWhite_fails
            [letter '[', star fun c => c ≠ ']', letter ']'] hw))
          (first_seq (first_opt_of_fails (endsWhite_fails [letter '-'] hw)) hlast)))
    unfold first at htail
    rw [List.head?_map, htail]
    rfl

theorem of_splitFirst {mark text before after : List Char}
    (h : splitFirst mark text = some (before, after)) : text = before ++ mark ++ after := by
  induction text generalizing before with
  | nil =>
      rw [splitFirst] at h
      split at h
      · rename_i hmark
        cases h
        rw [hmark]
        rfl
      · cases h
  | cons c text ih =>
      rw [splitFirst] at h
      split at h
      · rename_i hhere
        cases h
        obtain ⟨after, hafter⟩ := hhere
        rw [← hafter, List.drop_left' rfl]
        rfl
      · obtain ⟨⟨front, back⟩, hrest, heq⟩ := Option.map_eq_some_iff.mp h
        cases heq
        rw [ih hrest]
        rfl

/-- Without a brace before the word there is no target after the spans. -/
theorem tracing_module {front w : List Char} (hfront : '\x7d' ∉ front) (hw : Solid w) :
    (extractTargetMessageTracing (front ++ w)).1 = none := by
  unfold extractTargetMessageTracing
  cases hsplit : rsplit ['\x7d', ':'] (front ++ w) with
  | none => rfl
  | some sides =>
      obtain ⟨before, after⟩ := sides
      have htext : front ++ w = before ++ '\x7d' :: ':' :: after := by
        obtain ⟨⟨back, start⟩, hback, heq⟩ := Option.map_eq_some_iff.mp hsplit
        cases heq
        have hreverse := congrArg List.reverse (of_splitFirst hback)
        simpa using hreverse
      have hsuffix : after <:+ w := by
        rcases List.append_eq_append_iff.mp htext with ⟨middle, hbefore, hw'⟩ | ⟨middle, hfront', hw'⟩
        · exact ⟨middle ++ ['\x7d', ':'], by simp [hw']⟩
        · cases middle with
          | nil => exact ⟨['\x7d', ':'], by simpa using hw'⟩
          | cons c middle =>
              obtain ⟨rfl, -⟩ := List.cons.inj hw'
              exact absurd (by simp [hfront']) hfront
      have hsolid : Solid (trimStart after) :=
        (hw.suffix hsuffix).suffix (List.dropWhile_suffix _)
      have hnone : splitFirst [':', ' '] (trimStart after) = none := by
        cases hfound : splitFirst [':', ' '] (trimStart after) with
        | none => rfl
        | some sides =>
            have hmem : ' ' ∈ trimStart after := by
              rw [of_splitFirst hfound]
              simp
            cases hsolid ' ' hmem
      simp only [hnone]

theorem tracingFormat_module {clean : List Char}
    (h : tryParseTracingFormat tables clean raw = some parsed) :
    parsed.module = (extractTargetMessageTracing clean).1 := by
  unfold tryParseTracingFormat at h
  dsimp only at h
  split at h
  · cases h
  · cases h
    rfl

theorem bracketFormat_parts {clean : List Char}
    (h : parseBracketFormat tables clean raw = some parsed) :
    (parsed.module, parsed.message) = bracketParts tables clean := by
  unfold parseBracketFormat at h
  cases hbracket : extractBracket clean with
  | none =>
      rw [hbracket] at h
      cases h
      rfl
  | some bracket =>
      rw [hbracket] at h
      obtain ⟨inner, -, heq⟩ := Option.map_eq_some_iff.mp h
      cases heq
      rfl

/-- Where at most one word follows the tag, the older formats find the tag at most. -/
theorem olderFormats_module {sp w : List Char} (hsp : sp = [] ∧ w = [] ∨ Gap sp) (hw : Solid w)
    (h : (tryParseTracingFormat tables (header now level ++ (sp ++ w)) raw).or
      (parseBracketFormat tables (header now level ++ (sp ++ w)) raw) = some parsed) :
    parsed.module = none ∨ parsed.module = some "[R]".toList ∧ parsed.message = w := by
  rcases Option.or_eq_some_iff.mp h with htracing | ⟨-, hbracket⟩
  · left
    have hfront : '\x7d' ∉ header now level ++ sp := by
      intro hmem
      rcases List.mem_append.mp hmem with hmem | hmem
      · rcases header_letters now level _ hmem with halnum | hother
        · cases halnum
        · exact absurd hother (by decide)
      · rcases hsp with ⟨rfl, -⟩ | hsp
        · cases hmem
        · cases hsp.white _ hmem
    rw [tracingFormat_module tables htracing, ← List.append_assoc]
    exact tracing_module hfront hw
  · have hparts := bracketFormat_parts tables hbracket
    unfold bracketParts at hparts
    rcases bracketLine_first tables now level hsp hw with hnone | hfound
    · left
      rw [hnone] at hparts
      exact (Prod.mk.inj hparts).1
    · right
      obtain ⟨found, hfirst, hcaps⟩ := Option.map_eq_some_iff.mp hfound
      rw [hfirst] at hparts
      dsimp only at hparts
      rw [hcaps] at hparts
      exact Prod.mk.inj hparts

end Lines

end Rustvello.Monitoring
