import Rustvello.Backends.Rfc3339

/-!
# Formatted log lines

`RustvelloFormatter` of `rustvello/src/logging.rs` writes one line per event: the time, the
level, the tag `[R]`, and, from the spans around the event, the application and the bracket
context; then the target and the message.

* `SpanContext` — what the spans carry; an absent field is empty;
* `formatBracket` — the bracket context, in which a task is written only after an invocation;
* `formatEvent` — the line.
-/

namespace Rustvello.Monitoring

open Text Backends.Rfc3339

structure SpanContext where
  appId : List Char := []
  runnerClass : List Char := []
  runnerId : List Char := []
  workerId : List Char := []
  invocationId : List Char := []
  taskId : List Char := []
deriving DecidableEq

inductive Level where
  | trace
  | debug
  | info
  | warn
  | error
deriving DecidableEq

def Level.name : Level → List Char
  | trace => "TRACE".toList
  | debug => "DEBUG".toList
  | info => "INFO".toList
  | warn => "WARN".toList
  | error => "ERROR".toList

/-! ## Colours -/

def escape (code : List Char) : List Char :=
  Char.ofNat 27 :: '[' :: code ++ ['m']

def levelColor : Level → List Char
  | .error => escape "31".toList
  | .warn => escape "33".toList
  | .info => escape "32".toList
  | .debug => escape "36".toList
  | .trace => escape "2".toList

/-! ## The line -/

/-- An instant of a year of four digits. -/
structure LogTime where
  reading : Reading
  inColumns : reading.InColumns

def stampLayout : List (Nat × List Char) :=
  [(4, ['-']), (2, ['-']), (2, ['T']), (2, [':']), (2, [':']), (2, ['.']), (3, ['Z'])]

/-- `%Y-%m-%dT%H:%M:%S%.3fZ` -/
def LogTime.text (now : LogTime) : List Char :=
  columns stampLayout (now.reading.numbers ++ [now.reading.nanosecond / 1000000])

/-- `{:<5}` -/
def padded (name : List Char) : List Char :=
  name ++ List.replicate (5 - name.length) ' '

def truncateLength : Nat := 8

def maybeTruncate (value : List Char) (compact : Bool) : List Char :=
  if compact then value.take truncateLength else value

/-- `CLS(runner_id).W(worker_id)inv_uuid:task_key` -/
def formatBracket (sc : SpanContext) (compact : Bool) : List Char :=
  (if sc.runnerId ≠ [] then
    sc.runnerClass ++ '(' :: (maybeTruncate sc.runnerId compact ++ [')']) else []) ++
  (if sc.workerId ≠ [] then
    '.' :: 'W' :: '(' :: (maybeTruncate sc.workerId compact ++ [')']) else []) ++
  (if sc.invocationId ≠ [] then
    sc.invocationId ++ if sc.taskId ≠ [] then ':' :: sc.taskId else [] else [])

/-- `format_event`; the message is what the fields of the event are formatted to. -/
def formatEvent (useColors compact : Bool) (now : LogTime) (level : Level) (sc : SpanContext)
    (target message : List Char) : List Char :=
  let paint (code : List Char) := if useColors then code else []
  let color := paint (levelColor level)
  let reset := paint (escape "0".toList)
  let dim := paint (escape "2".toList)
  let blue := paint (escape "34".toList)
  let orange := paint (escape "38;5;208".toList)
  let context := formatBracket sc compact
  dim ++ now.text ++ reset ++ [' '] ++
  (color ++ padded level.name ++ reset ++ [' ']) ++
  (orange ++ "[R]".toList ++ reset ++ [' ']) ++
  (if sc.appId ≠ [] then blue ++ sc.appId ++ reset ++ [' '] else []) ++
  (if context ≠ [] then
    dim ++ ['['] ++ reset ++ context ++ dim ++ [']'] ++ reset ++ [' '] else []) ++
  (dim ++ target ++ reset ++ [' ']) ++
  (color ++ message ++ reset ++ ['\n'])

end Rustvello.Monitoring
