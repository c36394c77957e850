import Rustvello.Text.Regex
import Rustvello.Text.Slices

/-!
# Parsing log lines

`parse_log_line` of the log explorer (`rustvello-monitoring/src/log_explorer/parser.rs`): a line
is stripped of colour codes and read in the first of three formats that it has.

* `UnicodeTables` — the letter classes of the expressions beyond ASCII, as a parameter;
* `unifiedLineRe`, `tracingSpanRe`, `bracketLineRe` and their siblings — the expressions;
* `tryParseUnifiedFormat`, `tryParseTracingFormat`, `parseBracketFormat` — the formats; the last
  one slices a text at an offset found in its lower case, `none` where that panics;
* `parseLogLine` — all of it.
-/

namespace Rustvello.Monitoring

open Text Regex

/-- `\d`, `\w` and `to_lowercase`. -/
structure UnicodeTables where
  decimal : Char → Bool
  word : Char → Bool
  lowercase : List Char → List Char
  decimal_ascii : ∀ c, c.toNat < 128 → decimal c = c.isDigit
  word_ascii : ∀ c, c.toNat < 128 → word c = (c.isAlphanum || c = '_')

/-- `White_Space` -/
def isWhite (c : Char) : Bool :=
  (9 ≤ c.toNat && c.toNat ≤ 13) || c.toNat = 32 || c.toNat = 0x85 || c.toNat = 0xA0 ||
    c.toNat = 0x1680 || (0x2000 ≤ c.toNat && c.toNat ≤ 0x200A) || c.toNat = 0x2028 ||
    c.toNat = 0x2029 || c.toNat = 0x202F || c.toNat = 0x205F || c.toNat = 0x3000

/-! ## Texts -/

def trimStart (text : List Char) : List Char :=
  text.dropWhile isWhite

def trimEnd (text : List Char) : List Char :=
  (text.reverse.dropWhile isWhite).reverse

def trim (text : List Char) : List Char :=
  trimEnd (trimStart text)

def splitWhitespace (text : List Char) : List (List Char) :=
  (text.splitOnP isWhite).filter fun part => part ≠ []

/-- Both sides of the last occurrence. -/
def rsplit (word text : List Char) : Option (List Char × List Char) :=
  (splitFirst word.reverse text.reverse).map fun sides => (sides.2.reverse, sides.1.reverse)

/-- `short_id` of the formatting helpers -/
def shortId (id : List Char) : List Char :=
  if 8 < id.length then id.take 8 ++ ['…'] else id

/-! ## Expressions -/

/-- A letter in either case, as `(?i)` compares: two letters beyond ASCII fold to `s` and `k`. -/
def sameCaseless (x c : Char) : Bool :=
  c.toLower = x || (x = 's' && c = 'ſ') || (x = 'k' && c = 'K')

def caselessWord (word : List Char) : Regex Char :=
  cat (word.map fun x => one (sameCaseless x))

/-- `[0-9a-fA-F]` -/
def isHex (c : Char) : Bool :=
  c.isDigit || ('a' ≤ c.toLower && c.toLower ≤ 'f')

def hex (n : Nat) : Regex Char :=
  times n (one isHex)

def white : Regex Char :=
  plus isWhite

def ansiRe : Regex Char :=
  cat [letter (Char.ofNat 27), letter '[', star fun c => c.isDigit || c = ';', letter 'm']

def uuidRe : Regex Char :=
  cat [hex 8, letter '-', hex 4, letter '-', hex 4, letter '-', hex 4, letter '-', hex 12]

def bracketRe : Regex Char :=
  cat [letter '[', group 1 (plus fun c => c ≠ ']'), letter ']']

def runnerRe : Regex Char :=
  cat [group 1 (plus Char.isAlpha), letter '(', group 2 (plus fun c => c ≠ ')'), letter ')']

def entityRefRe : Regex Char :=
  cat [group 1 (oneOf (["invocation", "runner", "worker", "task", "parent-invocation",
      "child-invocation", "new-invocation", "current-owner-runner", "attempted-owner-runner",
      "workflow", "sub-workflow", "parent-workflow"].map fun kind => caselessWord kind.toList)),
    letter ':',
    group 2 (cat [plus fun c => c.isAlphanum || c = '.' || c = '_' || c = '-' || c = 'ſ' || c = 'K',
      upTo 4 (cat [letter '-', hex 4])])]

def entityListRe : Regex Char :=
  cat [group 1 (oneOf (["invocations", "runners", "workers", "workflows"].map fun kind =>
      caselessWord kind.toList)),
    letter ':', letter '[', group 2 (star fun c => c ≠ ']'), letter ']']

section Tables

variable (tables : UnicodeTables)

def digits (n : Nat) : Regex Char :=
  times n (one tables.decimal)

/-- The date and the time up to the second, with these letters between them. -/
def dateTime (separator : Char → Bool) : List (Regex Char) :=
  [digits tables 4, letter '-', digits tables 2, letter '-', digits tables 2, one separator,
    digits tables 2, letter ':', digits tables 2, letter ':', digits tables 2]

/-- A time as the older formats write it. -/
def anyTime : Regex Char :=
  cat (dateTime tables (fun c => c = 'T' || c = ' ') ++
    [opt (cat [letter '.', plus tables.decimal]),
      opt (oneOf [letter 'Z', cat [one fun c => c = '+' || c = '-', digits tables 2, letter ':',
        digits tables 2]])])

def timestampRe : Regex Char :=
  group 1 (anyTime tables)

def tracingSpanRe : Regex Char :=
  cat [group 1 (plus tables.word), letter '\x7b', group 2 (star fun c => c ≠ '\x7d'),
    letter '\x7d']

def bracketLineRe : Regex Char :=
  cat [group 1 (anyTime tables), white,
    group 2 (oneOf (["TRACE", "DEBUG", "INFO", "WARNING", "WARN", "ERROR", "CRITICAL"].map
      fun level => Regex.word level.toList)),
    white, group 3 (plus fun c => !isWhite c), white,
    opt (cat [letter '[', star fun c => c ≠ ']', letter ']', white]),
    opt (cat [letter '-', white]), group 4 (star fun c => c ≠ '\n')]

def unifiedLineRe : Regex Char :=
  cat [group 1 (cat (dateTime tables (fun c => c = 'T') ++ [letter '.', digits tables 3,
      letter 'Z'])), white,
    group 2 (oneOf (["TRACE", "DEBUG", "INFO", "WARN", "ERROR", "CRIT"].map
      fun level => Regex.word level.toList)),
    white, letter '[', group 3 (oneOf [letter 'R', letter 'P']), letter ']', white,
    group 4 (plus fun c => !isWhite c), white,
    opt (cat [letter '[', group 5 (star fun c => c ≠ ']'), letter ']', white]),
    group 6 (star fun c => c ≠ '\n')]

end Tables

/-! ## Parsed lines -/

structure ParsedRunner where
  clsAbbr : List Char
  partialId : List Char
deriving DecidableEq

structure EntityRef where
  kind : List Char
  value : List Char
deriving DecidableEq

structure ParsedLogLine where
  raw : List Char := []
  runners : List ParsedRunner := []
  workerId : Option (List Char) := none
  invocationId : Option (List Char) := none
  taskKey : Option (List Char) := none
  rawBracket : Option (List Char) := none
  timestamp : Option (List Char) := none
  level : Option (List Char) := none
  system : Option (List Char) := none
  module : Option (List Char) := none
  message : List Char := []
  entityRefs : List EntityRef := []
  isValid : Bool := false
deriving DecidableEq

/-- The text of a group that takes part in every match. -/
def captured (caps : Captures Char) (n : Nat) : List Char :=
  (caps.lookup n).getD []

def stripAnsi (text : List Char) : List Char :=
  removeAll ansiRe text

/-- Some component was extracted. -/
def anyExtracted (parsed : ParsedLogLine) : Bool :=
  !parsed.runners.isEmpty || parsed.workerId.isSome || parsed.invocationId.isSome ||
    parsed.taskKey.isSome || !parsed.entityRefs.isEmpty

section Parser

variable (tables : UnicodeTables)

/-! ### Parts that the formats share -/

def extractTimestamp (text : List Char) : Option (List Char) :=
  ((capturesIter (timestampRe tables) text).head?).map fun caps => captured caps 0

/-- `CRIT` and `WARN` are written out. -/
def canonicalLevel (level : List Char) : List Char :=
  if level = "WARN".toList then "WARNING".toList
  else if level = "CRIT".toList then "CRITICAL".toList
  else level

/-- The first level whose first occurrence stands alone. -/
def extractLevel (text : List Char) : Option (List Char) :=
  (["CRITICAL", "ERROR", "WARNING", "WARN", "INFO", "DEBUG", "TRACE", "CRIT"].map
    String.toList).findSome? fun level =>
      match splitFirst level text with
      | none => none
      | some (before, after) =>
          if before.getLast?.all (fun c => !c.isAlphanum) && after.head?.all (fun c => !c.isAlphanum)
          then some (canonicalLevel level)
          else none

/-- `refs.push(..)` where `seen.insert(..)` -/
def pushNew (refs : List EntityRef) (ref : EntityRef) : List EntityRef :=
  if ref ∈ refs then refs else refs ++ [ref]

def extractEntityRefs (text : List Char) : List EntityRef :=
  let refs := (capturesIter entityRefRe text).foldl (fun refs caps =>
    pushNew refs ⟨tables.lowercase (captured caps 1), captured caps 2⟩) []
  (capturesIter entityListRe text).foldl (fun refs caps =>
    let plural := tables.lowercase (captured caps 1)
    let singular := (plural.reverse.dropWhile fun c => c = 's').reverse
    (((captured caps 2).splitOn ',').map trim).foldl (fun refs value =>
      if value = [] then refs else pushNew refs ⟨singular, value⟩) refs) refs

/-! ### The unified format -/

/-- The invocation and the task, around the first colon after the runners. -/
def idsOf (afterRunners : List Char) : Option (List Char) × Option (List Char) :=
  match splitFirst [':'] afterRunners with
  | some (before, after) =>
      (if before = [] then none else some before, if after = [] then none else some after)
  | none => (if afterRunners = [] then none else some afterRunners, none)

/-- The last worker of the context wins; the other classes are runners. -/
def contextOf (bracket : List Char) (parsed : ParsedLogLine) : ParsedLogLine :=
  let chain := (capturesIter runnerRe bracket).map fun caps => (captured caps 1, captured caps 2)
  let ids := idsOf (afterLast runnerRe bracket)
  { parsed with
    rawBracket := some bracket
    runners := (chain.filter fun entry => entry.1 ≠ ['W']).map fun entry => ⟨entry.1, entry.2⟩
    workerId := ((chain.filter fun entry => entry.1 = ['W']).getLast?).map Prod.snd
    invocationId := ids.1
    taskKey := ids.2 }

/-- The first word, and what stands after the space. -/
def targetAndMessage (rest : List Char) : List Char × List Char :=
  (splitFirst [' '] rest).getD (rest, [])

/-- With a bracket the first word is the application, without one it is the target. -/
def readUnified (raw : List Char) (caps : Captures Char) : ParsedLogLine :=
  let bracket := caps.lookup 5
  let (module, message) :=
    if bracket.isSome then targetAndMessage (captured caps 6)
    else (captured caps 4, captured caps 6)
  let parsed : ParsedLogLine :=
    { raw := raw
      timestamp := some (captured caps 1)
      level := some (canonicalLevel (captured caps 2))
      system := some (if captured caps 3 = ['R'] then "RUST".toList else "PYTHON".toList)
      module := some module
      message := message
      entityRefs := extractEntityRefs tables message }
  let context := trim (bracket.getD [])
  let parsed := if context = [] then parsed else contextOf context parsed
  { parsed with isValid := anyExtracted parsed }

def tryParseUnifiedFormat (clean raw : List Char) : Option ParsedLogLine :=
  ((unifiedLineRe tables).first clean).map fun found => readUnified tables raw found.1

/-! ### The format of `tracing` -/

/-- The last value of a key. -/
def kvField (fields key : List Char) : Option (List Char) :=
  ((splitWhitespace fields).filterMap (splitFirst ['='])).reverse.lookup key

def extractTargetMessageTracing (line : List Char) : Option (List Char) × List Char :=
  match rsplit ['}', ':'] line with
  | none => (none, line)
  | some (_, after) =>
      let after := trimStart after
      match splitFirst [':', ' '] after with
      | none => (none, after)
      | some (target, message) =>
          (if trim target = [] then none else some (trim target), trim message)

/-- One span; those of other names are not read. -/
def readSpan (parsed : ParsedLogLine) (name fields : List Char) : ParsedLogLine :=
  if name = "runner".toList then
    match kvField fields "runner_id".toList with
    | none => parsed
    | some runnerId =>
        { parsed with
          runners := parsed.runners ++
            [⟨(kvField fields "cls".toList).getD ['R'], runnerId⟩] }
  else if name = "invocation".toList then
    { parsed with
      invocationId := (kvField fields "invocation_id".toList).or parsed.invocationId
      taskKey := ((kvField fields "task_id".toList).filter (· ≠ [])).or parsed.taskKey }
  else if name = "worker".toList then
    { parsed with workerId := (kvField fields "worker_id".toList).or parsed.workerId }
  else parsed

def tryParseTracingFormat (clean raw : List Char) : Option ParsedLogLine :=
  let spans := capturesIter (tracingSpanRe tables) clean
  if spans = [] then none
  else
    let parsed := spans.foldl (fun parsed caps =>
      readSpan parsed (captured caps 1) (captured caps 2)) {}
    let found := extractTargetMessageTracing clean
    let bracket :=
      (parsed.runners.map fun r => r.clsAbbr ++ '(' :: (shortId r.partialId ++ [')'])).flatten ++
        ((parsed.invocationId.map shortId).getD []) ++
        ((parsed.taskKey.map (':' :: ·)).getD [])
    let parsed := { parsed with
      raw := raw
      rawBracket := if bracket = [] then none else some bracket
      timestamp := extractTimestamp tables clean
      level := extractLevel clean
      module := found.1
      message := found.2
      entityRefs := extractEntityRefs tables found.2 }
    some { parsed with isValid := anyExtracted parsed }

/-! ### The bracket format -/

def extractBracket (text : List Char) : Option (List Char) :=
  ((capturesIter bracketRe text).head?).map fun caps => captured caps 1

/-- `none` where the offset of the identifier in the lower case does not cut the bracket. -/
def extractTaskKey (bracket : List Char) (invId : Option (List Char)) :
    Option (Option (List Char)) :=
  let after : Option (List Char) :=
    match invId with
    | none => some (afterLast runnerRe bracket)
    | some id =>
        match findBytes (tables.lowercase id) (tables.lowercase bracket) with
        | none => some bracket
        | some idx => (cutAt (idx + bytes id) bracket).map Prod.snd
  after.map fun after =>
    match after with
    | ':' :: key => if trim key = [] then none else some (trim key)
    | _ => none

def parseBracket (bracket : List Char) : Option ParsedLogLine :=
  let runners := (capturesIter runnerRe bracket).map fun caps =>
    (⟨captured caps 1, captured caps 2⟩ : ParsedRunner)
  let invId := ((capturesIter uuidRe bracket).head?).map fun caps => captured caps 0
  (extractTaskKey tables bracket invId).map fun taskKey =>
    { runners := runners
      invocationId := invId
      taskKey := taskKey
      rawBracket := some bracket
      isValid := !runners.isEmpty || invId.isSome || taskKey.isSome }

/-- Module and message, where the line has this format. -/
def bracketParts (clean : List Char) : Option (List Char) × List Char :=
  match (bracketLineRe tables).first clean with
  | some found => (found.1.lookup 3, captured found.1 4)
  | none => (none, clean)

def parseBracketFormat (clean raw : List Char) : Option ParsedLogLine :=
  let entityRefs := extractEntityRefs tables clean
  let header : ParsedLogLine :=
    { raw := raw
      timestamp := extractTimestamp tables clean
      level := extractLevel clean
      module := (bracketParts tables clean).1
      message := (bracketParts tables clean).2 }
  match extractBracket clean with
  | none => some
      { header with entityRefs := entityRefs, isValid := !entityRefs.isEmpty }
  | some bracket =>
      (parseBracket tables bracket).map fun parsed =>
        { parsed with
          raw := header.raw
          timestamp := header.timestamp
          level := header.level
          module := header.module
          message := header.message
          entityRefs := entityRefs
          isValid := parsed.isValid || !entityRefs.isEmpty }

/-! ### A line -/

variable (jsonText : List Char → Option (List Char))

/-- `jsonText` is the field `text` of a JSON object. -/
def tryExtractJsonText (line : List Char) : Option (List Char) :=
  if (trim line).head? = some '{' then jsonText (trim line) else none

/-- `parse_log_line`; `none` where it panics. -/
def parseLogLine (line : List Char) : Option ParsedLogLine :=
  let raw := trim line
  let clean := (tryExtractJsonText jsonText raw).getD (stripAnsi raw)
  (tryParseUnifiedFormat tables clean raw).or
    ((tryParseTracingFormat tables clean raw).or (parseBracketFormat tables clean raw))

end Parser

end Rustvello.Monitoring
