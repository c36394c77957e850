import Rustvello.Monitoring.BracketContexts

/-!
# Reading back what was formatted

The parser reads a line that the formatter wrote without colours.  It takes the first bracket
after the first word for the context, whoever wrote it.

* `LogEvent` — a time, a level, a context, a target and a message;
* `clean_formatted` — what is left of its line after trimming and stripping;
* `ReadBack`, `Recoverable` — everything is recovered, and the events where it is;
* `formatted_readBack_iff` — these are the same.
-/

namespace Rustvello.Monitoring

open Text Regex

/-! ## Events -/

def esc : Char := Char.ofNat 27

structure LogEvent where
  now : LogTime
  level : Level
  context : SpanContext
  target : List Char
  message : List Char
  spans : context = {} ∨ InSpans context
  target_solid : Solid target
  message_line : '\n' ∉ message
  message_esc : esc ∉ message
  message_start : Outside isWhite message
  message_stop : Outside isWhite message.reverse

section Event

variable (tables : UnicodeTables) (jsonText : List Char → Option (List Char)) (compact : Bool)
  (e : LogEvent)

def LogEvent.formatted : List Char :=
  formatEvent false compact e.now e.level e.context e.target e.message

/-- The line is parsed, and everything in it is found again. -/
def ReadBack : Prop :=
  ∃ parsed, parseLogLine tables jsonText (e.formatted compact) = some parsed ∧
    parsed.level = some (canonicalLevel e.level.name) ∧ parsed.module = some e.target ∧
    parsed.message = e.message ∧ parsed.context = expectedContext e.context compact

/-- There is a target, written as it is; a context is that of a runner, and its task is
written. -/
def Recoverable : Prop :=
  e.target ≠ [] ∧ stripAnsi e.target = e.target ∧
    (e.context ≠ {} →
      e.context.runnerClass ≠ ['W'] ∧ (e.context.taskId ≠ [] → e.context.invocationId ≠ []))

end Event

/-! ## Trimming and stripping -/

section Texts

variable {text ws front back : List Char}

theorem dropWhile_of_outside {p : Char → Bool} (h : Outside p text) : text.dropWhile p = text := by
  cases text with
  | nil => rfl
  | cons c text => rw [List.dropWhile_cons, h c rfl]; rfl

/-- Trimming a text that is surrounded by no whitespace, up to whitespace behind it. -/
theorem trim_append (hstart : Outside isWhite text) (hne : text ≠ [])
    (hstop : Outside isWhite text.reverse) (hws : ∀ c ∈ ws, isWhite c = true) :
    trim (text ++ ws) = text := by
  have hhead : Outside isWhite (text ++ ws) := by
    obtain ⟨c, cs, rfl⟩ := List.exists_cons_of_ne_nil hne
    exact hstart
  unfold trim trimStart trimEnd
  rw [dropWhile_of_outside hhead, List.reverse_append,
    List.dropWhile_append_of_pos fun c hc => hws c (List.mem_reverse.mp hc),
    dropWhile_of_outside hstop, List.reverse_reverse]

theorem Solid.reverse (h : Solid text) : Solid text.reverse :=
  fun c hc => h c (List.mem_reverse.mp hc)

theorem trim_of_solid (h : Solid text) : trim text = text := by
  cases text with
  | nil => rfl
  | cons c text =>
      have htrim := trim_append h.outside (List.cons_ne_nil c text) h.reverse.outside
        (show ∀ c ∈ ([] : List Char), isWhite c = true from nofun)
      rwa [List.append_nil] at htrim

/-- Only an escape before a bracket begins a colour code. -/
theorem ansi_fails (h : ∀ rest, esc :: '[' :: rest ≠ text) : ansiRe.run text = [] := by
  show (seq (letter esc) (seq (letter '[') _)).run text = []
  cases text with
  | nil => rfl
  | cons c text =>
      by_cases hc : c = esc
      · subst hc
        have hbracket : (letter '[').run text = [] := by
          cases text with
          | nil => rfl
          | cons d text =>
              have hd : d ≠ '[' := by
                rintro rfl
                exact h text rfl
              rw [letter, run, if_neg (by simpa using hd)]
        rw [(leads_letter esc (fun _ => false) text).run_seq (failsOn_false _),
          run_seq_of_nil hbracket, List.map_nil]
      · refine run_seq_of_nil ?_ _
        rw [letter, run, if_neg (by simpa using hc)]

theorem stripAnsi_eq_self (h : ∀ rest, ¬ esc :: '[' :: rest <:+ text) : stripAnsi text = text := by
  refine removeAll_of_fails fun rest hrest => ansi_fails fun tail heq => ?_
  rw [← heq] at hrest
  exact h tail hrest

theorem stripAnsi_of_not_mem (h : esc ∉ text) : stripAnsi text = text :=
  stripAnsi_eq_self fun _ hsuffix => h (hsuffix.subset List.mem_cons_self)

theorem stripAnsi_space (front back : List Char) :
    stripAnsi (front ++ ' ' :: back) = stripAnsi front ++ ' ' :: stripAnsi back := by
  have havoids : ansiRe.Avoids ' ' := by simp [ansiRe, cat, letter, Avoids]
  exact removeAll_append havoids rfl front back

theorem stop_snoc {c : Char} (h : isWhite c = false) (front : List Char) :
    Outside isWhite (front ++ [c]).reverse := by
  rw [List.reverse_append]
  intro x hx
  cases hx
  exact h

/-- The last letter of a text that is not empty is the last of the whole. -/
theorem stop_append (hne : back ≠ []) (h : Outside isWhite back.reverse) (front : List Char) :
    Outside isWhite (front ++ back).reverse := by
  obtain ⟨c, cs, hback⟩ : ∃ c cs, back.reverse = c :: cs :=
    List.exists_cons_of_ne_nil fun hnil => hne (List.reverse_eq_nil_iff.mp hnil)
  rw [List.reverse_append]
  rw [hback] at h ⊢
  exact h

end Texts

/-! ## The line -/

section Line

variable {sc : SpanContext} {target message front : List Char} {compact : Bool}

/-- The application and the context, after the tag. -/
def contextPart (sc : SpanContext) (compact : Bool) : List Char :=
  if sc = {} then [] else ' ' :: (sc.appId ++ ' ' :: '[' :: (formatBracket sc compact ++ [']']))

/-- The target as `written`, and the message; the whitespace at the end is left out. -/
def messagePart (target written message : List Char) : List Char :=
  if message ≠ [] then ' ' :: (written ++ ' ' :: message)
  else if target ≠ [] then ' ' :: written else []

theorem stripAnsi_contextPart (h : sc = {} ∨ InSpans sc) (front : List Char) :
    stripAnsi (front ++ contextPart sc compact) = stripAnsi front ++ contextPart sc compact := by
  unfold contextPart
  split
  · rw [List.append_nil, List.append_nil]
  · rename_i hne
    have hspans := h.resolve_left hne
    have happ : stripAnsi sc.appId = sc.appId :=
      stripAnsi_eq_self fun rest hsuffix =>
        (hspans.appId '[' (hsuffix.subset (by simp))).2 (by simp)
    have hcontext : stripAnsi ('[' :: (formatBracket sc compact ++ [']'])) =
        '[' :: (formatBracket sc compact ++ [']']) := by
      refine stripAnsi_eq_self fun rest hsuffix => ?_
      have hinner : '[' :: rest <:+ formatBracket sc compact ++ [']'] := by
        rcases List.suffix_cons_iff.mp hsuffix with heq | hsuffix
        · cases heq
        · exact (List.suffix_cons esc _).trans hsuffix
      rcases List.mem_append.mp (hinner.subset List.mem_cons_self) with hmem | hmem
      · exact (formatBracket_letters hspans compact _ hmem).2 (by simp)
      · cases List.mem_singleton.mp hmem
    rw [stripAnsi_space, stripAnsi_space, happ, hcontext]

theorem stripAnsi_messagePart (h : esc ∉ message) (front : List Char) :
    stripAnsi (front ++ messagePart target target message) =
      stripAnsi front ++ messagePart target (stripAnsi target) message := by
  unfold messagePart
  split
  · rw [stripAnsi_space, stripAnsi_space, stripAnsi_of_not_mem h]
  · split
    · rw [stripAnsi_space]
    · rw [List.append_nil, List.append_nil]

theorem esc_not_mem_header (now : LogTime) (level : Level) : esc ∉ header now level := by
  intro hmem
  rcases header_letters now level esc hmem with halnum | hother
  · cases halnum
  · exact absurd hother (by decide)

/-- The line of an event, up to the whitespace at its end. -/
theorem formatted_eq (e : LogEvent) (compact : Bool) : ∃ ws, (∀ c ∈ ws, isWhite c = true) ∧
    e.formatted compact = header e.now e.level ++ contextPart e.context compact ++
      messagePart e.target e.target e.message ++ ws := by
  have hpart : e.context = {} ∨ e.context.appId ≠ [] ∧ formatBracket e.context compact ≠ [] ∧
      e.context ≠ {} := by
    rcases e.spans with hempty | hspans
    · exact .inl hempty
    · refine .inr ⟨hspans.appId_ne, formatBracket_ne_nil hspans compact, fun hempty => ?_⟩
      exact hspans.appId_ne (by rw [hempty])
  have hline : e.formatted compact = header e.now e.level ++ contextPart e.context compact ++
      (' ' :: (e.target ++ ' ' :: (e.message ++ ['\n']))) := by
    unfold LogEvent.formatted formatEvent contextPart header
    rcases hpart with hempty | ⟨happ, hbracket, hne⟩
    · simp [hempty, formatBracket]
    · simp [happ, hbracket, hne]
  rw [hline]
  unfold messagePart
  split
  · exact ⟨['\n'], by simp [isWhite], by simp⟩
  · rename_i hmessage
    rw [not_not.mp hmessage]
    split
    · exact ⟨[' ', '\n'], by simp [isWhite], by simp⟩
    · rename_i htarget
      rw [not_not.mp htarget]
      exact ⟨[' ', ' ', '\n'], by simp [isWhite], by simp⟩

/-- It ends as its message, its target, its context or the tag end. -/
theorem line_stop (e : LogEvent) (compact : Bool) : Outside isWhite
    (header e.now e.level ++ contextPart e.context compact ++
      messagePart e.target e.target e.message).reverse := by
  have htag : header e.now e.level =
      e.now.text ++ (' ' :: padded e.level.name ++ ' ' :: ['[', 'R']) ++ [']'] := by
    simp [header]
  have hcontext : Outside isWhite (header e.now e.level ++ contextPart e.context compact).reverse := by
    unfold contextPart
    split
    · rw [List.append_nil, htag]
      exact stop_snoc rfl _
    · have hend : ' ' :: (e.context.appId ++ ' ' :: '[' ::
          (formatBracket e.context compact ++ [']'])) =
            ' ' :: (e.context.appId ++ ' ' :: '[' :: formatBracket e.context compact) ++ [']'] := by
        simp
      rw [hend, ← List.append_assoc]
      exact stop_snoc rfl _
  unfold messagePart
  split
  · rename_i hmessage
    have hend : ' ' :: (e.target ++ ' ' :: e.message) = ' ' :: (e.target ++ [' ']) ++ e.message := by
      simp
    rw [hend, ← List.append_assoc]
    exact stop_append hmessage e.message_stop _
  · split
    · rename_i htarget
      exact stop_append (List.cons_ne_nil _ _)
        (stop_append htarget e.target_solid.reverse.outside [' ']) _
    · rwa [List.append_nil]

/-- A line of the header and more begins with a digit. -/
theorem header_start (now : LogTime) (level : Level) (rest : List Char) :
    ∃ n tail, header now level ++ rest = digit n :: tail := by
  obtain ⟨a, b, c, d, e, f, g, h, i, j, k, l, m, n, o, p, q, htext⟩ := text_eq now
  exact ⟨a, _, by rw [header, htext]; rfl⟩

/-- What is read of the line of an event. -/
theorem parseLogLine_formatted (tables : UnicodeTables)
    (jsonText : List Char → Option (List Char)) (e : LogEvent) (compact : Bool) :
    ∃ clean raw, clean = header e.now e.level ++ contextPart e.context compact ++
        messagePart e.target (stripAnsi e.target) e.message ∧
      parseLogLine tables jsonText (e.formatted compact) =
        (tryParseUnifiedFormat tables clean raw).or
          ((tryParseTracingFormat tables clean raw).or (parseBracketFormat tables clean raw)) := by
  obtain ⟨ws, hws, hline⟩ := formatted_eq e compact
  have hstop := line_stop e compact
  obtain ⟨n, tail, hstart⟩ := header_start e.now e.level
    (contextPart e.context compact ++ messagePart e.target e.target e.message)
  have hclean : stripAnsi (header e.now e.level ++ contextPart e.context compact ++
      messagePart e.target e.target e.message) =
        header e.now e.level ++ contextPart e.context compact ++
          messagePart e.target (stripAnsi e.target) e.message := by
    rw [stripAnsi_messagePart e.message_esc, stripAnsi_contextPart e.spans,
      stripAnsi_of_not_mem (esc_not_mem_header e.now e.level)]
  rw [← List.append_assoc] at hstart
  rw [hstart] at hline hstop hclean
  have houtside : Outside isWhite (digit n :: tail) := fun c hc => by
    cases hc
    exact isWhite_digit n
  have hraw : ∀ ws, (∀ c ∈ ws, isWhite c = true) → trim (digit n :: tail ++ ws) = digit n :: tail :=
    fun ws hws => trim_append houtside (List.cons_ne_nil _ _) hstop hws
  have hjson : tryExtractJsonText jsonText (digit n :: tail) = none := by
    have htrim := hraw [] nofun
    rw [List.append_nil] at htrim
    unfold tryExtractJsonText
    rw [htrim, if_neg]
    intro hhead
    exact digit_ne (c := '\x7b') rfl n (Option.some.inj hhead)
  refine ⟨_, digit n :: tail, rfl, ?_⟩
  unfold parseLogLine
  dsimp only
  rw [hline, hraw ws hws, hjson, Option.getD_none, hclean]

end Line

/-! ## What is read back -/

section Reading

variable {tables : UnicodeTables} {jsonText : List Char → Option (List Char)} {compact : Bool}
  {e : LogEvent} {text rest : List Char}

theorem readBack_of_parsed {parsed : ParsedLogLine}
    (h : parseLogLine tables jsonText (e.formatted compact) = some parsed) :
    ReadBack tables jsonText compact e ↔
      parsed.level = some (canonicalLevel e.level.name) ∧ parsed.module = some e.target ∧
      parsed.message = e.message ∧ parsed.context = expectedContext e.context compact := by
  unfold ReadBack
  rw [h]
  exact ⟨fun ⟨_, hparsed, hback⟩ => Option.some.inj hparsed ▸ hback, fun hback => ⟨_, rfl, hback⟩⟩

theorem stripAnsi_tag : stripAnsi "[R]".toList = "[R]".toList :=
  stripAnsi_of_not_mem (by decide)

theorem stripAnsi_solid (h : Solid text) : Solid (stripAnsi text) :=
  fun c hc => h c (mem_of_mem_removeAll hc)

/-- A target that is written without a letter has an escape, if it has any letter. -/
theorem ne_target (hempty : stripAnsi e.target = []) (hne : text ≠ []) (hesc : esc ∉ text) :
    text ≠ e.target := by
  rintro rfl
  rw [stripAnsi_of_not_mem hesc] at hempty
  exact hne hempty

/-- The first word of a text that does not begin with whitespace. -/
theorem firstWord_ne_nil (hstart : Outside isWhite text) (hne : text ≠ []) :
    (text.takeWhile fun c => c ≠ ' ') ≠ [] := by
  obtain ⟨c, cs, rfl⟩ := List.exists_cons_of_ne_nil hne
  have hc : c ≠ ' ' := by
    rintro rfl
    cases hstart ' ' rfl
  simp [hc]

theorem esc_not_mem_firstWord (h : esc ∉ text) : esc ∉ text.takeWhile fun c => c ≠ ' ' :=
  fun hmem => h ((List.takeWhile_prefix _).subset hmem)

theorem gap_space : Gap [' '] :=
  ⟨List.cons_ne_nil _ _, forall_mem_of_all rfl⟩

theorem gap_two : Gap [' ', ' '] :=
  ⟨List.cons_ne_nil _ _, forall_mem_of_all rfl⟩

/-- A word and what follows it. -/
theorem firstWord_append (h : Solid text) (hrest : Outside (fun c => c ≠ ' ') rest) :
    (text ++ rest).takeWhile (fun c => c ≠ ' ') = text ∧
      (text ++ rest).dropWhile (fun c => c ≠ ' ') = rest := by
  have hword : ∀ c ∈ text, decide (c ≠ ' ') = true := by
    intro c hc
    refine decide_eq_true ?_
    rintro rfl
    cases h ' ' hc
  rw [List.takeWhile_append_of_pos hword, List.dropWhile_append_of_pos hword,
    dropWhile_of_outside hrest]
  cases rest with
  | nil => exact ⟨by simp, rfl⟩
  | cons c rest =>
      obtain rfl : c = ' ' := by simpa using hrest c rfl
      exact ⟨by simp, rfl⟩

theorem not_bracketFirst_of_solid (h : Solid text) : ¬ BracketFirst text := by
  rintro ⟨inner, c, rest, rfl, -, hc⟩
  rw [h c (by simp)] at hc
  cases hc

/-- With a context, the first word after it is the target. -/
theorem readBack_context (h : InSpans e.context) : ReadBack tables jsonText compact e ↔
    e.target ≠ [] ∧ stripAnsi e.target = e.target ∧ e.context.runnerClass ≠ ['W'] ∧
      (e.context.taskId ≠ [] → e.context.invocationId ≠ []) := by
  obtain ⟨clean, raw, hclean, hparse⟩ := parseLogLine_formatted tables jsonText e compact
  have hne : e.context ≠ {} := fun hempty => h.appId_ne (by rw [hempty])
  have happ : Solid e.context.appId := fun c hc => (h.appId c hc).1
  have hletters := formatBracket_letters h compact
  have hclose : ']' ∉ formatBracket e.context compact := fun hmem =>
    (hletters _ hmem).2 (by simp)
  have hcontext : trim (formatBracket e.context compact) = formatBracket e.context compact :=
    trim_of_solid fun c hc => (hletters c hc).1
  -- what is read when whitespace and a text stand behind the context
  have hread : ∀ gap' rest, Gap gap' → Outside isWhite rest → '\n' ∉ rest →
      messagePart e.target (stripAnsi e.target) e.message = gap' ++ rest →
      (ReadBack tables jsonText compact e ↔
        (rest.takeWhile fun c => c ≠ ' ') = e.target ∧
        (rest.dropWhile fun c => c ≠ ' ').tail = e.message ∧ e.context.runnerClass ≠ ['W'] ∧
        (e.context.taskId ≠ [] → e.context.invocationId ≠ [])) := by
    intro gap' rest hgap' hrest hline hpart
    have hshape : clean = header e.now e.level ++ ([' '] ++ (e.context.appId ++ ([' '] ++
        '[' :: (formatBracket e.context compact ++ ']' :: (gap' ++ rest))))) := by
      rw [hclean, hpart, contextPart, if_neg hne]
      simp
    obtain ⟨parsed, hparsed, hlevel, hmodule, hmessage, hids⟩ := unifiedFormat_bracket tables
      e.now e.level raw gap_space happ h.appId_ne gap_space hclose
      hgap' hrest hline
    rw [← hshape] at hparsed
    rw [hparsed] at hparse
    rw [readBack_of_parsed hparse, hlevel, hmodule, hmessage,
      hids (by rw [hcontext]; exact formatBracket_ne_nil h compact), hcontext,
      contextOf_formatBracket_iff h]
    simp
  by_cases hwritten : stripAnsi e.target = []
  · -- the first word is not the target
    have hfails : ¬ (e.target ≠ [] ∧ stripAnsi e.target = e.target ∧
        e.context.runnerClass ≠ ['W'] ∧ (e.context.taskId ≠ [] → e.context.invocationId ≠ [])) := by
      rintro ⟨htarget, heq, -⟩
      exact htarget (heq.symm.trans hwritten)
    refine iff_of_false ?_ hfails
    by_cases hmessage : e.message = []
    · by_cases htarget : e.target = []
      · have hsolid : Solid ('[' :: (formatBracket e.context compact ++ [']'])) := by
          simp only [Solid, List.forall_mem_cons, List.forall_mem_append]
          exact ⟨by decide, fun c hc => (hletters c hc).1, by decide, List.forall_mem_nil _⟩
        have hshape : clean = header e.now e.level ++ ([' '] ++ (e.context.appId ++ ([' '] ++
            '[' :: (formatBracket e.context compact ++ [']'])))) := by
          rw [hclean, contextPart, if_neg hne]
          simp [messagePart, hmessage, htarget]
        obtain ⟨parsed, hparsed, -, hmodule, -, -⟩ := unifiedFormat_plain tables e.now
          e.level raw gap_space happ h.appId_ne gap_space hsolid.outside
          (fun hmem => by cases hsolid _ hmem) (not_bracketFirst_of_solid hsolid)
        rw [← hshape] at hparsed
        rw [hparsed] at hparse
        rw [readBack_of_parsed hparse, hmodule, htarget]
        rintro ⟨-, happnil, -⟩
        exact h.appId_ne (Option.some.inj happnil)
      · rw [hread [' '] [] gap_space outside_nil List.not_mem_nil
          (by simp [messagePart, hmessage, htarget, hwritten])]
        rintro ⟨hmodule, -⟩
        exact htarget hmodule.symm
    · rw [hread _ _ gap_two e.message_start e.message_line (by simp [messagePart, hmessage, hwritten])]
      rintro ⟨hmodule, -⟩
      exact ne_target hwritten (firstWord_ne_nil e.message_start hmessage)
        (esc_not_mem_firstWord e.message_esc) hmodule
  · have htarget : e.target ≠ [] := by
      intro hnil
      rw [hnil] at hwritten
      exact hwritten rfl
    have hsolid := stripAnsi_solid e.target_solid
    obtain ⟨back, hback, hline, htail, hpart⟩ : ∃ back, Outside (fun c => c ≠ ' ') back ∧
        '\n' ∉ back ∧ back.tail = e.message ∧ messagePart e.target (stripAnsi e.target) e.message =
          [' '] ++ (stripAnsi e.target ++ back) := by
      by_cases hmessage : e.message = []
      · exact ⟨[], outside_nil, List.not_mem_nil, hmessage.symm,
          by simp [messagePart, hmessage, htarget]⟩
      · exact ⟨' ' :: e.message, fun c hc => by cases hc; rfl, by simp [e.message_line], rfl,
          by simp [messagePart, hmessage]⟩
    have hstart : Outside isWhite (stripAnsi e.target ++ back) := by
      obtain ⟨c, cs, heq⟩ := List.exists_cons_of_ne_nil hwritten
      rw [heq] at hsolid ⊢
      exact hsolid.outside
    have hlines : '\n' ∉ stripAnsi e.target ++ back := by
      intro hmem
      rcases List.mem_append.mp hmem with hmem | hmem
      · cases hsolid _ hmem
      · exact hline hmem
    obtain ⟨hmodule, hmessage⟩ := firstWord_append hsolid hback
    rw [hread _ _ gap_space hstart hlines hpart, hmodule, hmessage, htail]
    constructor
    · rintro ⟨heq, -, hclass, htask⟩
      exact ⟨htarget, heq, hclass, htask⟩
    · rintro ⟨-, heq, hclass, htask⟩
      exact ⟨heq, rfl, hclass, htask⟩

/-! ### Without a context -/

theorem outside_suffix (h : Outside isWhite (text ++ rest).reverse) :
    Outside isWhite rest.reverse := by
  rw [List.reverse_append] at h
  intro c hc
  refine h c ?_
  rw [List.head?_append, Option.mem_def.mp hc]
  rfl

theorem outside_dropWhile (p : Char → Bool) (text : List Char) : Outside p (text.dropWhile p) := by
  intro c hc
  have hstop := List.head?_dropWhile_not p text
  rw [Option.mem_def.mp hc] at hstop
  exact hstop

/-- Whitespace in front of a text that does not end in whitespace. -/
theorem split_gap {c : Char} (hc : isWhite c = true)
    (hstop : Outside isWhite (c :: text).reverse) :
    ∃ gap rest, c :: text = gap ++ rest ∧ Gap gap ∧ Outside isWhite rest ∧ rest ≠ [] := by
  refine ⟨(c :: text).takeWhile isWhite, (c :: text).dropWhile isWhite,
    List.takeWhile_append_dropWhile.symm, ⟨by simp [hc], fun x hx => List.mem_takeWhile_imp hx⟩,
    outside_dropWhile isWhite _, fun hnil => ?_⟩
  have hwhite := List.dropWhile_eq_nil_iff.mp hnil
  obtain ⟨x, xs, hreverse⟩ : ∃ x xs, (c :: text).reverse = x :: xs :=
    List.exists_cons_of_ne_nil (by simp)
  have hmem : x ∈ c :: text := List.mem_reverse.mp (by rw [hreverse]; exact List.mem_cons_self)
  have hlast : isWhite x = false := hstop x (by rw [hreverse]; rfl)
  rw [hwhite x hmem] at hlast
  cases hlast

theorem bracketFirst_split (h : BracketFirst text) (hstop : Outside isWhite text.reverse) :
    ∃ inner gap rest, text = '[' :: (inner ++ ']' :: (gap ++ rest)) ∧ ']' ∉ inner ∧ Gap gap ∧
      Outside isWhite rest ∧ rest ≠ [] := by
  obtain ⟨inner, c, tail, rfl, hinner, hc⟩ := h
  have hfront : '[' :: (inner ++ ']' :: c :: tail) = ('[' :: (inner ++ [']'])) ++ c :: tail := by simp
  rw [hfront] at hstop
  obtain ⟨gap, rest, htail, hgap, hrest, hne⟩ := split_gap hc (outside_suffix hstop)
  exact ⟨inner, gap, rest, by rw [htail], hinner, hgap, hrest, hne⟩

/-- A text of more than one word. -/
theorem split_words (hstart : Outside isWhite text) (hstop : Outside isWhite text.reverse)
    (h : ¬ Solid text) : ∃ word gap rest, text = word ++ (gap ++ rest) ∧ Solid word ∧ word ≠ [] ∧
      Gap gap ∧ Outside isWhite rest ∧ rest ≠ [] := by
  let word := text.takeWhile fun c => !isWhite c
  let back := text.dropWhile fun c => !isWhite c
  have htext : text = word ++ back := List.takeWhile_append_dropWhile.symm
  have hword : Solid word := fun c hc => by simpa using List.mem_takeWhile_imp hc
  cases hback : back with
  | nil =>
      rw [hback, List.append_nil] at htext
      exact absurd (htext ▸ hword) h
  | cons c tail =>
      have hc : isWhite c = true := by
        have hout := outside_dropWhile (fun c => !isWhite c) text
        rw [show text.dropWhile (fun c => !isWhite c) = c :: tail from hback] at hout
        simpa using hout c rfl
      have hne : word ≠ [] := by
        intro hnil
        rw [hnil, List.nil_append, hback] at htext
        rw [htext] at hstart
        rw [hstart c rfl] at hc
        cases hc
      have hstop' : Outside isWhite (c :: tail).reverse := by
        rw [htext, hback] at hstop
        exact outside_suffix hstop
      obtain ⟨gap, rest, htail, hgap, hrest, hrestne⟩ := split_gap hc hstop'
      exact ⟨word, gap, rest, by rw [← htail, ← hback]; exact htext, hword, hne, hgap, hrest, hrestne⟩

/-- One word after the tag is not read as target and message. -/
theorem not_readBack_word (sp w : List Char) {clean raw : List Char}
    (hclean : clean = header e.now e.level ++ (sp ++ w)) (hsp : sp = [] ∧ w = [] ∨ Gap sp)
    (hw : Solid w) (htarget : e.target = "[R]".toList → w ≠ e.message)
    (hparse : parseLogLine tables jsonText (e.formatted compact) =
      (tryParseUnifiedFormat tables clean raw).or
        ((tryParseTracingFormat tables clean raw).or (parseBracketFormat tables clean raw))) :
    ¬ ReadBack tables jsonText compact e := by
  have hnone : tryParseUnifiedFormat tables clean raw = none := by
    have htail : unifiedTail.run (sp ++ w) = [] := by
      rcases hsp with ⟨rfl, rfl⟩ | hsp
      · exact run_seq_of_nil (white_run_of_solid hw) _
      · exact unifiedTail_fails hsp hw
    unfold tryParseUnifiedFormat first
    rw [hclean, unified_run, htail]
    rfl
  rintro ⟨parsed, hparsed, -, hmodule, hmessage, -⟩
  rw [hparse, hnone, Option.none_or, hclean] at hparsed
  rcases olderFormats_module tables hsp hw hparsed with habsent | ⟨htag, hword⟩
  · rw [habsent] at hmodule
    cases hmodule
  · rw [htag] at hmodule
    exact htarget (Option.some.inj hmodule).symm (hword.symm.trans hmessage)

/-- A word, whitespace and more: this word is the target, or the first one behind a bracket. -/
theorem readBack_words {sp word gap q clean raw : List Char}
    (hclean : clean = header e.now e.level ++ (sp ++ (word ++ (gap ++ q)))) (hsp : Gap sp)
    (hword : Solid word) (hne : word ≠ []) (hgap : Gap gap) (hstart : Outside isWhite q)
    (hstop : Outside isWhite q.reverse) (hline : '\n' ∉ q)
    (hparse : parseLogLine tables jsonText (e.formatted compact) =
      (tryParseUnifiedFormat tables clean raw).or
        ((tryParseTracingFormat tables clean raw).or (parseBracketFormat tables clean raw)))
    (hread : ReadBack tables jsonText compact e) :
    (¬ BracketFirst q ∧ word = e.target ∧ q = e.message) ∨
      ∃ front rest, q = front ++ rest ∧ front ≠ [] ∧ Outside isWhite rest ∧ rest ≠ [] ∧
        (rest.takeWhile fun c => c ≠ ' ') = e.target ∧
        (rest.dropWhile fun c => c ≠ ' ').tail = e.message := by
  by_cases hbracket : BracketFirst q
  · right
    obtain ⟨inner, gap', rest, hq, hinner, hgap', hrest, hrestne⟩ := bracketFirst_split hbracket hstop
    obtain ⟨parsed, hparsed, -, hmodule, hfound, -⟩ := unifiedFormat_bracket tables e.now
      e.level raw hsp hword hne hgap hinner hgap' hrest
      fun hmem => hline (by rw [hq]; simp [hmem])
    rw [← hq, ← hclean] at hparsed
    rw [hparsed] at hparse
    rw [readBack_of_parsed hparse, hmodule, hfound] at hread
    exact ⟨'[' :: (inner ++ ']' :: gap'), rest, by rw [hq]; simp, List.cons_ne_nil _ _, hrest,
      hrestne, Option.some.inj hread.2.1, hread.2.2.1⟩
  · left
    obtain ⟨parsed, hparsed, -, hmodule, hfound, -⟩ := unifiedFormat_plain tables e.now
      e.level raw hsp hword hne hgap hstart hline hbracket
    rw [← hclean] at hparsed
    rw [hparsed] at hparse
    rw [readBack_of_parsed hparse, hmodule, hfound] at hread
    exact ⟨hbracket, Option.some.inj hread.2.1, hread.2.2.1⟩

/-- A message without a target: one of its words is read as the target. -/
theorem not_readBack_unwritten (h : e.context = {}) (hmessage : e.message ≠ [])
    (hwritten : stripAnsi e.target = []) : ¬ ReadBack tables jsonText compact e := by
  obtain ⟨clean, raw, hclean, hparse⟩ := parseLogLine_formatted tables jsonText e compact
  have hshape : clean = header e.now e.level ++ ([' ', ' '] ++ e.message) := by
    rw [hclean, contextPart, if_pos h]
    simp [messagePart, hmessage, hwritten]
  by_cases hword : Solid e.message
  · refine not_readBack_word _ _ hshape (.inr gap_two) hword (fun heq => ?_) hparse
    rw [heq, stripAnsi_tag] at hwritten
    cases hwritten
  · obtain ⟨word, gap, q, hq, hsolidWord, hne, hgap, hout, hqne⟩ :=
      split_words e.message_start e.message_stop hword
    have hesc : esc ∉ word ∧ esc ∉ q := by
      have hall := e.message_esc
      rw [hq] at hall
      simp only [List.mem_append, not_or] at hall
      exact ⟨hall.1, hall.2.2⟩
    have hstop : Outside isWhite q.reverse := by
      have hwhole := e.message_stop
      rw [hq, ← List.append_assoc] at hwhole
      exact outside_suffix hwhole
    have hline : '\n' ∉ q := fun hmem => e.message_line (by rw [hq]; simp [hmem])
    rw [hq] at hshape
    intro hread
    rcases readBack_words hshape gap_two hsolidWord hne hgap hout hstop hline hparse hread with
      ⟨-, hmodule, -⟩ | ⟨front, rest, heq, -, hrest, hrestne, hmodule, -⟩
    · exact ne_target hwritten hne hesc.1 hmodule
    · have hescRest : esc ∉ rest := fun hmem => hesc.2 (by rw [heq]; simp [hmem])
      exact ne_target hwritten (firstWord_ne_nil hrest hrestne) (esc_not_mem_firstWord hescRest)
        hmodule

/-- Without a context, the target and the message are found if the message does not begin with a
bracket. -/
theorem readBack_bare (h : e.context = {}) : ReadBack tables jsonText compact e ↔
    e.target ≠ [] ∧ stripAnsi e.target = e.target ∧ e.message ≠ [] ∧ ¬ BracketFirst e.message := by
  obtain ⟨clean, raw, hclean, hparse⟩ := parseLogLine_formatted tables jsonText e compact
  have hcontext : expectedContext e.context compact = ([], none, none, none) := by
    rw [h]
    cases compact <;> rfl
  rw [contextPart, if_pos h, List.append_nil] at hclean
  have hsolid := stripAnsi_solid e.target_solid
  by_cases hmessage : e.message = []
  · -- there is at most the target
    refine iff_of_false ?_ fun hall => hall.2.2.1 hmessage
    by_cases htarget : e.target = []
    · refine not_readBack_word [] [] ?_ (.inl ⟨rfl, rfl⟩) nofun ?_ hparse
      · rw [hclean]
        simp [messagePart, hmessage, htarget]
      · rw [htarget]
        nofun
    · refine not_readBack_word [' '] _ ?_ (.inr gap_space) hsolid (fun heq => ?_) hparse
      · rw [hclean]
        simp [messagePart, hmessage, htarget]
      · rw [heq, stripAnsi_tag, hmessage]
        nofun
  · by_cases hwritten : stripAnsi e.target = []
    · refine iff_of_false (not_readBack_unwritten h hmessage hwritten) ?_
      rintro ⟨htarget, heq, -⟩
      exact htarget (heq.symm.trans hwritten)
    · have htarget : e.target ≠ [] := by
        intro hnil
        rw [hnil] at hwritten
        exact hwritten rfl
      have hshape : clean = header e.now e.level ++
          ([' '] ++ (stripAnsi e.target ++ ([' '] ++ e.message))) := by
        rw [hclean]
        simp [messagePart, hmessage]
      by_cases hbracket : BracketFirst e.message
      · refine iff_of_false (fun hread => ?_) fun hall => hall.2.2.2 hbracket
        rcases readBack_words hshape gap_space hsolid hwritten gap_space e.message_start
          e.message_stop e.message_line hparse hread with
          ⟨hplain, -⟩ | ⟨front, rest, heq, hfront, -, -, -, hshort⟩
        · exact hplain hbracket
        · have hlength := congrArg List.length heq
          have hle : e.message.length ≤ rest.length := by
            rw [← hshort, List.length_tail]
            exact (Nat.sub_le _ _).trans (List.dropWhile_suffix _).length_le
          have hpos := List.length_pos_of_ne_nil hfront
          rw [List.length_append] at hlength
          omega
      · obtain ⟨parsed, hparsed, hlevel, hmodule, hfound, hids⟩ := unifiedFormat_plain tables
          e.now e.level raw gap_space hsolid hwritten gap_space
          e.message_start e.message_line hbracket
        rw [← hshape] at hparsed
        rw [hparsed] at hparse
        rw [readBack_of_parsed hparse, hlevel, hmodule, hfound, hids, hcontext]
        simp [htarget, hmessage, hbracket]

theorem formatted_readBack_iff (tables : UnicodeTables)
    (jsonText : List Char → Option (List Char)) (compact : Bool) (e : LogEvent)
    (h : e.context = {} → e.message ≠ [] ∧ ¬ BracketFirst e.message) :
    ReadBack tables jsonText compact e ↔ Recoverable e := by
  unfold Recoverable
  by_cases hbare : e.context = {}
  · rw [readBack_bare hbare]
    exact ⟨fun ⟨hne, heq, _⟩ => ⟨hne, heq, fun hspans => absurd hbare hspans⟩,
      fun ⟨hne, heq, _⟩ => ⟨hne, heq, h hbare⟩⟩
  · rw [readBack_context (e.spans.resolve_left hbare)]
    exact ⟨fun ⟨hne, heq, hcontext⟩ => ⟨hne, heq, fun _ => hcontext⟩,
      fun ⟨hne, heq, hcontext⟩ => ⟨hne, heq, hcontext hbare⟩⟩

end Reading

/-! ## Three events -/

/-- The classes of the expressions within ASCII. -/
def asciiTables : UnicodeTables where
  decimal := Char.isDigit
  word c := c.isAlphanum || c = '_'
  lowercase text := text.map Char.toLower
  decimal_ascii _ _ := rfl
  word_ascii _ _ := rfl

def startEvent : LogEvent where
  now := ⟨⟨2026, 3, 27, 10, 23, 45, 123000000⟩, by constructor <;> decide⟩
  level := .debug
  context := {}
  target := "rustvello::app".toList
  message := "Starting up".toList
  spans := .inl rfl
  target_solid := forall_mem_of_all rfl
  message_line := by decide
  message_esc := by decide
  message_start c hc := by cases hc; rfl
  message_stop c hc := by cases hc; rfl

/-- A message that begins with a bracket. -/
def bracketEvent : LogEvent :=
  { startEvent with
    message := "[boot] ready now".toList
    message_line := by decide
    message_esc := by decide
    message_start := fun c hc => by cases hc; rfl
    message_stop := fun c hc => by cases hc; rfl }

def workerContext : SpanContext where
  appId := "app".toList
  runnerClass := "W".toList
  runnerId := "a86ab1f8".toList

theorem workerContext_inSpans : InSpans workerContext := by
  constructor
  all_goals first | exact forall_mem_of_all rfl | decide

/-- A runner of the class that stands for workers. -/
def workerEvent : LogEvent :=
  { startEvent with
    context := workerContext
    spans := .inr workerContext_inSpans }

theorem formatted_readBack_iff_startEvent :
    ReadBack asciiTables (fun _ => none) true startEvent := by
  refine (formatted_readBack_iff asciiTables _ true startEvent fun _ => ?_).mpr ?_
  · refine ⟨List.cons_ne_nil _ _, ?_⟩
    rintro ⟨inner, c, rest, heq, -⟩
    cases heq
  · exact ⟨List.cons_ne_nil _ _, stripAnsi_of_not_mem (by decide), fun hne => absurd rfl hne⟩

/-- A runner of this class is not read as what it is. -/
theorem not_readBack_worker :
    ¬ ∃ tables jsonText compact, ReadBack tables jsonText compact workerEvent := by
  rintro ⟨tables, jsonText, compact, hread⟩
  exact ((readBack_context workerContext_inSpans).mp hread).2.2.1 rfl

/-- Nor is the bracket of a message. -/
theorem not_readBack_bracket :
    ¬ ∃ tables jsonText compact, ReadBack tables jsonText compact bracketEvent := by
  rintro ⟨tables, jsonText, compact, hread⟩
  exact ((readBack_bare rfl).mp hread).2.2.2
    ⟨"boot".toList, ' ', "ready now".toList, rfl, by decide, rfl⟩

end Rustvello.Monitoring
